import SentirumLb.Consul.KvRoutes
import SentirumLb.Consul.ServiceMonitor
import SentirumLb.Lib.Mailbox
import SentirumLb.Lib.Runs
import SentirumLb.Route.Registry

/-! # From Consul to the routes

Two watchers send their updates through a channel to the task that writes them
into the managed route table, while the admin API writes the static routes.
Every task can be ahead of the others. What a section of the registry holds is
compared with what its watcher has sent.
-/

namespace SentirumLb

namespace Consul

/-! ## The watcher of the key-value store -/

structure KvWatch where
  lastIndex : ℕ
  backoffSecs : ℕ
  stopped : Bool

abbrev KvAnswer : Type := Except String (List DecodedKvPair × ℕ)

namespace KvWatch

def initial : KvWatch := ⟨0, 1, false⟩

variable {W : Type}

/-- One round of the loop, from the answer to a question for what is newer than the last index. -/
def round (s : KvWatch) (answer : KvAnswer) : KvWatch × List (WatchEvent W) :=
  match answer with
  | .ok (pairs, newIndex) =>
      let s := { s with backoffSecs := 1 }
      if newIndex ≠ s.lastIndex then
        ({ s with lastIndex := newIndex }, [.send (.manual ((watchKv pairs).getD ""))])
      else (s, if s.lastIndex = 0 then [.poll] else [])
  | .error e =>
      ({ s with backoffSecs := min (s.backoffSecs * 2) 60 },
        [.send (.error e), .sleep s.backoffSecs])

variable (W) in
def after (s : KvWatch) (answers : List KvAnswer) : KvWatch :=
  answers.foldl (fun s answer => (s.round answer : KvWatch × List (WatchEvent W)).1) s

def events (s : KvWatch) : List KvAnswer → List (WatchEvent W)
  | [] => []
  | answer :: answers =>
      let (s', done) := s.round answer
      done ++ events s' answers

end KvWatch

/-! ## The tasks -/

inductive Sender where
  | service
  | kv
deriving DecidableEq

def channelCap : ℕ := 100

structure Pipeline (W : Type) where
  service : Watch
  kv : KvWatch
  channel : Mailbox Sender (RouteUpdate W)
  /-- The update that `route_update_handler` has received and not written yet. -/
  handling : Option (RouteUpdate W)
  managed : ManagedRouteTable W

inductive PipelineLabel (W : Type) where
  | serviceRound (r : Round)
  | kvRound (answer : KvAnswer)
  | send (i : Sender)
  /-- A send fails, as there is no handler any more. -/
  | refuse (i : Sender)
  | receive
  /-- The handler writes its update, while some targets are held outside of the table. -/
  | write (held : List (Target W))
  | other (u : Update W) (held : List (Target W))
  | shutdown

def updatesOf {W : Type} (events : List (WatchEvent W)) : List (RouteUpdate W) :=
  events.filterMap fun
    | .send u => some u
    | _ => none

namespace Pipeline

variable {W : Type} [Platform] [WeightText W]

omit [Platform] [WeightText W] in
def start (cbConfig : Option CircuitBreakerConfig) (heap : Heap) : Pipeline W :=
  ⟨.initial, .initial, .new, none, .new cbConfig heap⟩

omit [Platform] [WeightText W] in
/-- A watcher whose send has failed. It goes on where that was an error. -/
def stop (s : Pipeline W) (u : RouteUpdate W) : Sender → Pipeline W
  | .service =>
      match u with
      | .error _ => s
      | _ => { s with service := { s.service with stopped := true } }
  | .kv =>
      match u with
      | .error _ => s
      | _ => { s with kv := { s.kv with stopped := true } }

def handle (held : List (Target W)) (m : ManagedRouteTable W) : RouteUpdate W →
    ManagedRouteTable W
  | .services defs => m.updateServices held defs
  | .manual content => m.updateKv held (RouteParser.parseRouteCommands content)
  | .error _ => m

/-- The sections that belong to the watchers are written by the handler only. -/
def isOther (u : Update W) : Bool :=
  u.writes ≠ some .consulKv ∧ u.writes ≠ some .consulService

/-- One step of some task. `enabled` tells which watchers are run. -/
def step (config : ConsulConfig) (enabled : Sender → Bool) (s : Pipeline W) :
    PipelineLabel W → Option (Pipeline W)
  | .serviceRound r =>
      if enabled .service ∧ s.channel.held .service = [] ∧ ¬s.service.stopped then
        -- whether the send succeeds shows when it is made
        let (service, events) := s.service.round config { r with channelOpen := true }
        some { s with
          service := service
          channel := s.channel.hold .service (updatesOf events) }
      else none
  | .kvRound answer =>
      if enabled .kv ∧ s.channel.held .kv = [] ∧ ¬s.kv.stopped then
        let (kv, events) := s.kv.round answer
        some { s with kv := kv, channel := s.channel.hold .kv (updatesOf events) }
      else none
  | .send i => (s.channel.send channelCap i).map fun channel => { s with channel := channel }
  | .refuse i => (s.channel.refuse i).map fun (u, channel) =>
      stop { s with channel := channel } u i
  | .receive =>
      if s.handling.isNone then
        s.channel.receive.map fun ((_, u), channel) =>
          { s with channel := channel, handling := some u }
      else none
  | .write held => s.handling.map fun u =>
      { s with handling := none, managed := handle held s.managed u }
  | .other u held =>
      if isOther u then some { s with managed := s.managed.perform (u, held) } else none
  | .shutdown => if s.handling.isNone then some { s with channel := s.channel.close } else none

omit [Platform] [WeightText W] in
def writes (s : Pipeline W) : PipelineLabel W → List (RouteUpdate W)
  | .write _ => s.handling.toList
  | _ => []

def written (config : ConsulConfig) (enabled : Sender → Bool)
    (cbConfig : Option CircuitBreakerConfig) (heap : Heap) (ls : List (PipelineLabel W)) :
    List (RouteUpdate W) :=
  Runs.log (step config enabled) writes (start cbConfig heap) ls

/-! ## What the watchers have sent -/

def servicesOf : RouteUpdate W → Option (List (RouteDef W))
  | .services defs => some defs
  | _ => none

def kvOf : RouteUpdate W → Option (List (RouteDef W))
  | .manual content => some (RouteParser.parseRouteCommands content)
  | _ => none

def serviceRounds (ls : List (PipelineLabel W)) : List Round :=
  ls.filterMap fun
    | .serviceRound r => some { r with channelOpen := true }
    | _ => none

def kvAnswers (ls : List (PipelineLabel W)) : List KvAnswer :=
  ls.filterMap fun
    | .kvRound answer => some answer
    | _ => none

def begun (config : ConsulConfig) (ls : List (PipelineLabel W)) : Sender → List (RouteUpdate W)
  | .service => updatesOf (Watch.events config .initial (serviceRounds ls))
  | .kv => updatesOf (KvWatch.events .initial (kvAnswers ls))

/-! ### Rounds -/

section Rounds

omit [Platform]

omit [WeightText W] in
theorem updatesOf_append (done done' : List (WatchEvent W)) :
    updatesOf (done ++ done') = updatesOf done ++ updatesOf done' :=
  List.filterMap_append

theorem serviceEvents_concat {config : ConsulConfig} {s w : Watch} {rs : List Round}
    (hrun : Runs.run (Watch.step W config) s rs = some w) (hgoes : ¬w.stopped) (r : Round) :
    (Watch.events config s (rs ++ [r]) : List (WatchEvent W)) =
      Watch.events config s rs ++ (w.round config r).2 := by
  induction rs generalizing s with
  | nil =>
    cases hrun
    simp [Watch.events, hgoes]
  | cons r' rs ih =>
    rw [Runs.run_cons] at hrun
    obtain ⟨s', hs', hrun⟩ := Option.bind_eq_some_iff.mp hrun
    obtain ⟨hopen, rfl⟩ := Watch.step_eq_some_iff.mp hs'
    simp [Watch.events, hopen, ih hrun]

omit [WeightText W] in
theorem kvEvents_concat (s : KvWatch) (answers : List KvAnswer) (answer : KvAnswer) :
    (KvWatch.events s (answers ++ [answer]) : List (WatchEvent W)) =
      KvWatch.events s answers ++ ((KvWatch.after W s answers).round answer).2 := by
  induction answers generalizing s with
  | nil => simp [KvWatch.events, KvWatch.after]
  | cons answer' answers ih =>
    rw [List.cons_append, KvWatch.events]
    dsimp only
    rw [ih, KvWatch.events, List.append_assoc]
    rfl

theorem kvOf_of_mem_round {config : ConsulConfig} {r : Round} {s : Watch} {u : RouteUpdate W}
    (h : u ∈ updatesOf (s.round config r : Watch × List (WatchEvent W)).2) : kvOf u = none := by
  have hquery : updatesOf (s.query : List (WatchEvent W)) = [] := by
    unfold Watch.query
    split <;> rfl
  have houtcome := Watch.outcome_round (W := W) config r s
  generalize (s.round config r : Watch × List (WatchEvent W)) = out at houtcome h
  cases houtcome with
  | failed message hsnap =>
    rw [updatesOf_append, hquery] at h
    obtain rfl := List.mem_singleton.mp h
    rfl
  | unchanged hsnap heq =>
    rw [updatesOf_append, hquery] at h
    split at h <;> cases h
  | published hsnap hne hcomplete hdefs =>
    rw [updatesOf_append, hquery] at h
    obtain rfl := List.mem_singleton.mp h
    rfl
  | kept message hsnap hne hfails =>
    rw [updatesOf_append, hquery] at h
    obtain rfl := List.mem_singleton.mp h
    rfl

omit [WeightText W] in
theorem servicesOf_of_mem_round {answer : KvAnswer} {s : KvWatch} {u : RouteUpdate W}
    (h : u ∈ updatesOf (s.round answer).2) : servicesOf u = none := by
  cases answer with
  | error e =>
    obtain rfl := List.mem_singleton.mp h
    rfl
  | ok answer =>
    obtain ⟨pairs, newIndex⟩ := answer
    unfold KvWatch.round at h
    dsimp only at h
    split at h
    · obtain rfl := List.mem_singleton.mp h
      rfl
    · dsimp only at h
      split at h <;> cases h

theorem kvOf_of_mem_begun {config : ConsulConfig} {ls : List (PipelineLabel W)}
    {u : RouteUpdate W} (h : u ∈ begun config ls .service) : kvOf u = none := by
  have hevents : ∀ (rs : List Round) (s : Watch),
      ∀ u ∈ updatesOf (Watch.events config s rs : List (WatchEvent W)), kvOf u = none := by
    intro rs
    induction rs with
    | nil =>
      rintro s u ⟨⟩
    | cons r rs ih =>
      intro s u hu
      rw [Watch.events] at hu
      dsimp only at hu
      split at hu
      · cases hu
      · rw [updatesOf_append, List.mem_append] at hu
        obtain hu | hu := hu
        · exact kvOf_of_mem_round hu
        · exact ih _ u hu
  exact hevents _ _ u h

theorem servicesOf_of_mem_begun {config : ConsulConfig} {ls : List (PipelineLabel W)}
    {u : RouteUpdate W} (h : u ∈ begun config ls .kv) : servicesOf u = none := by
  have hevents : ∀ (answers : List KvAnswer) (s : KvWatch),
      ∀ u ∈ updatesOf (KvWatch.events s answers : List (WatchEvent W)), servicesOf u = none := by
    intro answers
    induction answers with
    | nil =>
      rintro s u ⟨⟩
    | cons answer answers ih =>
      intro s u hu
      rw [KvWatch.events] at hu
      dsimp only at hu
      rw [updatesOf_append, List.mem_append] at hu
      obtain hu | hu := hu
      · exact servicesOf_of_mem_round hu
      · exact ih _ u hu
  exact hevents _ _ u h

end Rounds

/-! ## Every interleaving -/

open Mailbox

section Run

variable (config : ConsulConfig) (enabled : Sender → Bool) (cbConfig : Option CircuitBreakerConfig)
  (heap : Heap)

structure Follows (ls : List (PipelineLabel W)) (taken : List (Sender × RouteUpdate W))
    (calls : List (Update W × List (Target W))) (written : List (RouteUpdate W))
    (s : Pipeline W) : Prop where
  delivers : s.channel.Delivers channelCap (begun config ls) taken
  managed : s.managed = (ManagedRouteTable.new cbConfig heap).run calls
  services : (sentBy .service taken).filterMap servicesOf =
    written.filterMap servicesOf ++ (s.handling.bind servicesOf).toList
  kv : (sentBy .kv taken).filterMap kvOf =
    written.filterMap kvOf ++ (s.handling.bind kvOf).toList
  servicesCalls : (calls.map (·.1)).filterMap Update.services = written.filterMap servicesOf
  kvCalls : (calls.map (·.1)).filterMap Update.kv = written.filterMap kvOf
  serviceWatch : ∃ w, Runs.run (Watch.step W config) .initial (serviceRounds ls) = some w ∧
    (¬s.service.stopped → s.service = w)
  kvWatch : ¬s.kv.stopped → s.kv = KvWatch.after W .initial (kvAnswers ls)

theorem follows_start :
    Follows config cbConfig heap [] [] [] [] (start cbConfig heap : Pipeline W) := by
  constructor
  · have hnew := delivers_new (ι := Sender) (μ := RouteUpdate W) channelCap
    have hbegun : begun config ([] : List (PipelineLabel W)) = fun _ => [] := by
      funext i
      cases i <;> rfl
    rw [hbegun]
    exact hnew
  · rfl
  · rfl
  · rfl
  · rfl
  · rfl
  · exact ⟨_, rfl, fun _ => rfl⟩
  · exact fun _ => rfl

variable {config enabled cbConfig heap} {ls : List (PipelineLabel W)}
  {taken : List (Sender × RouteUpdate W)} {calls : List (Update W × List (Target W))}
  {done : List (RouteUpdate W)} {s s' : Pipeline W}

theorem Follows.quiet (h : Follows config cbConfig heap ls taken calls done s) {l : PipelineLabel W}
    (hservice : serviceRounds [l] = []) (hkv : kvAnswers [l] = []) :
    Follows config cbConfig heap (ls ++ [l]) taken calls (done ++ []) s := by
  have hrounds : serviceRounds (ls ++ [l]) = serviceRounds ls := by
    rw [serviceRounds, List.filterMap_append, ← serviceRounds, ← serviceRounds, hservice,
      List.append_nil]
  have hanswers : kvAnswers (ls ++ [l]) = kvAnswers ls := by
    rw [kvAnswers, List.filterMap_append, ← kvAnswers, ← kvAnswers, hkv, List.append_nil]
  have hbegun : begun config (ls ++ [l]) = begun config ls := by
    funext i
    cases i with
    | service => rw [begun, begun, hrounds]
    | kv => rw [begun, begun, hanswers]
  rw [List.append_nil]
  exact ⟨hbegun ▸ h.delivers, h.managed, h.services, h.kv, h.servicesCalls, h.kvCalls,
    hrounds ▸ h.serviceWatch, hanswers ▸ h.kvWatch⟩

theorem Follows.send (h : Follows config cbConfig heap ls taken calls done s) {i : Sender}
    {channel : Mailbox Sender (RouteUpdate W)}
    (hsend : s.channel.send channelCap i = some channel) :
    Follows config cbConfig heap ls taken calls done { s with channel := channel } :=
  { h with delivers := h.delivers.send hsend }

theorem Follows.refuse (h : Follows config cbConfig heap ls taken calls done s) {i : Sender}
    {u : RouteUpdate W} {channel : Mailbox Sender (RouteUpdate W)}
    (hrefuse : s.channel.refuse i = some (u, channel)) :
    Follows config cbConfig heap ls taken calls done (stop { s with channel := channel } u i) := by
  have hrefused : Follows config cbConfig heap ls taken calls done { s with channel := channel } :=
    { h with delivers := h.delivers.refuse hrefuse }
  obtain ⟨w, hw, -⟩ := h.serviceWatch
  cases i with
  | service =>
    cases u with
    | error e => exact hrefused
    | services defs =>
      exact { hrefused with serviceWatch := ⟨w, hw, fun hgoes => absurd rfl hgoes⟩ }
    | manual text =>
      exact { hrefused with serviceWatch := ⟨w, hw, fun hgoes => absurd rfl hgoes⟩ }
  | kv =>
    cases u with
    | error e => exact hrefused
    | services defs => exact { hrefused with kvWatch := fun hgoes => absurd rfl hgoes }
    | manual text => exact { hrefused with kvWatch := fun hgoes => absurd rfl hgoes }

theorem Follows.receive (h : Follows config cbConfig heap ls taken calls done s)
    (hidle : s.handling = none) {m : Sender × RouteUpdate W}
    {channel : Mailbox Sender (RouteUpdate W)} (hreceive : s.channel.receive = some (m, channel)) :
    Follows config cbConfig heap ls (taken ++ [m]) calls done
      { s with channel := channel, handling := some m.2 } := by
  obtain ⟨i, u⟩ := m
  have hdelivers := h.delivers.receive hreceive
  have hmem : u ∈ begun config ls i := hdelivers.mem_begun (by simp)
  have hservices := h.services
  have hkv := h.kv
  rw [hidle] at hservices hkv
  refine { h with delivers := hdelivers, services := ?_, kv := ?_ }
  · rw [sentBy_append, List.filterMap_append, hservices]
    cases i with
    | service => rw [sentBy_singleton_self]; cases hu : servicesOf u <;> simp [hu]
    | kv =>
      rw [sentBy_singleton_of_ne (by decide)]
      simp [servicesOf_of_mem_begun hmem]
  · rw [sentBy_append, List.filterMap_append, hkv]
    cases i with
    | service =>
      rw [sentBy_singleton_of_ne (by decide)]
      simp [kvOf_of_mem_begun hmem]
    | kv => rw [sentBy_singleton_self]; cases hu : kvOf u <;> simp [hu]

def callOf : RouteUpdate W → Option (Update W)
  | .services defs => some (.updateServices defs)
  | .manual content => some (.updateKv (RouteParser.parseRouteCommands content))
  | .error _ => none

theorem Follows.write (h : Follows config cbConfig heap ls taken calls done s) {u : RouteUpdate W}
    (hu : s.handling = some u) (held : List (Target W)) :
    Follows config cbConfig heap ls taken
      (calls ++ (callOf u).toList.map fun call => (call, held)) (done ++ [u])
      { s with handling := none, managed := handle held s.managed u } := by
  have hservices := h.services
  have hkv := h.kv
  rw [hu] at hservices hkv
  refine { h with managed := ?_, services := ?_, kv := ?_, servicesCalls := ?_, kvCalls := ?_ }
  · cases u with
    | error e => simpa [callOf, handle] using h.managed
    | services defs =>
      rw [callOf, Option.toList_some, List.map_singleton, ManagedRouteTable.run_concat, ← h.managed]
      rfl
    | manual content =>
      rw [callOf, Option.toList_some, List.map_singleton, ManagedRouteTable.run_concat, ← h.managed]
      rfl
  · rw [hservices]
    cases u <;> simp [servicesOf]
  · rw [hkv]
    cases u <;> simp [kvOf]
  · rw [List.map_append, List.filterMap_append, List.filterMap_append, h.servicesCalls]
    cases u <;> rfl
  · rw [List.map_append, List.filterMap_append, List.filterMap_append, h.kvCalls]
    cases u <;> rfl

theorem Follows.other (h : Follows config cbConfig heap ls taken calls done s) {u : Update W}
    (hu : isOther u) (held : List (Target W)) :
    Follows config cbConfig heap ls taken (calls ++ [(u, held)]) done
      { s with managed := s.managed.perform (u, held) } := by
  refine { h with managed := ?_, servicesCalls := ?_, kvCalls := ?_ }
  · rw [ManagedRouteTable.run_concat, ← h.managed]
  · rw [← h.servicesCalls]
    cases u with
    | updateServices defs => simp [isOther, Update.writes] at hu
    | _ => simp [Update.services]
  · rw [← h.kvCalls]
    cases u with
    | updateKv defs => simp [isOther, Update.writes] at hu
    | _ => simp [Update.kv]

theorem Follows.serviceRound (h : Follows config cbConfig heap ls taken calls done s) {r : Round}
    (hidle : s.channel.held .service = []) (hgoes : ¬s.service.stopped)
    {out : Watch × List (WatchEvent W)}
    (hout : s.service.round config { r with channelOpen := true } = out) :
    Follows config cbConfig heap (ls ++ [.serviceRound r]) taken calls (done ++ [])
      { s with service := out.1, channel := s.channel.hold .service (updatesOf out.2) } := by
  obtain ⟨w, hw, heq⟩ := h.serviceWatch
  obtain rfl := heq hgoes
  have hrounds : serviceRounds (ls ++ [.serviceRound r]) =
      serviceRounds ls ++ [{ r with channelOpen := true }] := List.filterMap_append
  have hanswers : kvAnswers (ls ++ [.serviceRound r]) = kvAnswers ls := by
    simp [kvAnswers]
  have hbegun : begun config (ls ++ [.serviceRound r]) =
      Function.update (begun config ls) .service (begun config ls .service ++ updatesOf out.2) := by
    funext i
    cases i with
    | service =>
      rw [Function.update_self, begun, begun, hrounds, serviceEvents_concat hw hgoes,
        updatesOf_append, hout]
    | kv => rw [Function.update_of_ne (by decide), begun, begun, hanswers]
  rw [List.append_nil]
  refine { h with delivers := ?_, serviceWatch := ?_, kvWatch := ?_ }
  · rw [hbegun]
    exact h.delivers.hold hidle _
  · refine ⟨out.1, ?_, fun _ => rfl⟩
    rw [hrounds, Runs.run_concat_eq_some_iff]
    exact ⟨s.service, hw, Watch.step_eq_some_iff.mpr ⟨by simpa using hgoes, by rw [hout]⟩⟩
  · rw [hanswers]
    exact h.kvWatch

theorem Follows.kvRound (h : Follows config cbConfig heap ls taken calls done s) {answer : KvAnswer}
    (hidle : s.channel.held .kv = []) (hgoes : ¬s.kv.stopped)
    {out : KvWatch × List (WatchEvent W)} (hout : s.kv.round answer = out) :
    Follows config cbConfig heap (ls ++ [.kvRound answer]) taken calls (done ++ [])
      { s with kv := out.1, channel := s.channel.hold .kv (updatesOf out.2) } := by
  have hanswers : kvAnswers (ls ++ [.kvRound answer]) = kvAnswers ls ++ [answer] :=
    List.filterMap_append
  have hrounds : serviceRounds (ls ++ [.kvRound answer]) = serviceRounds ls := by
    simp [serviceRounds]
  have hafter : KvWatch.after W .initial (kvAnswers ls) = s.kv := (h.kvWatch hgoes).symm
  have hbegun : begun config (ls ++ [.kvRound answer]) =
      Function.update (begun config ls) .kv (begun config ls .kv ++ updatesOf out.2) := by
    funext i
    cases i with
    | service => rw [Function.update_of_ne (by decide), begun, begun, hrounds]
    | kv =>
      rw [Function.update_self, begun, begun, hanswers, kvEvents_concat, updatesOf_append, hafter,
        hout]
  rw [List.append_nil]
  refine { h with delivers := ?_, serviceWatch := ?_, kvWatch := ?_ }
  · rw [hbegun]
    exact h.delivers.hold hidle _
  · rw [hrounds]
    exact h.serviceWatch
  · intro _
    rw [hanswers, KvWatch.after, List.foldl_concat, ← KvWatch.after, hafter, hout]

/-- Whatever step is taken, what was written and what is under way goes on from before. -/
theorem Follows.step (h : Follows config cbConfig heap ls taken calls done s) {l : PipelineLabel W}
    (hs : step config enabled s l = some s') :
    ∃ taken' calls', Follows config cbConfig heap (ls ++ [l]) taken' calls' (done ++ s.writes l)
      s' := by
  cases l with
  | serviceRound r =>
    obtain ⟨⟨-, hidle, hgoes⟩, hround⟩ := Option.ite_none_right_eq_some.mp hs
    cases hround
    exact ⟨taken, calls, h.serviceRound hidle hgoes rfl⟩
  | kvRound answer =>
    obtain ⟨⟨-, hidle, hgoes⟩, hround⟩ := Option.ite_none_right_eq_some.mp hs
    cases hround
    exact ⟨taken, calls, h.kvRound hidle hgoes rfl⟩
  | send i =>
    obtain ⟨channel, hsend, rfl⟩ := Option.map_eq_some_iff.mp hs
    exact ⟨taken, calls, (h.send hsend).quiet rfl rfl⟩
  | refuse i =>
    obtain ⟨⟨u, channel⟩, hrefuse, rfl⟩ := Option.map_eq_some_iff.mp hs
    exact ⟨taken, calls, (h.refuse hrefuse).quiet rfl rfl⟩
  | receive =>
    obtain ⟨hidle, hreceived⟩ := Option.ite_none_right_eq_some.mp hs
    obtain ⟨⟨m, channel⟩, hreceive, rfl⟩ := Option.map_eq_some_iff.mp hreceived
    exact ⟨_, calls, (h.receive (Option.isNone_iff_eq_none.mp hidle) hreceive).quiet rfl rfl⟩
  | write held =>
    obtain ⟨u, hu, rfl⟩ := Option.map_eq_some_iff.mp hs
    have hwrites : s.writes (.write held) = [u] := congrArg Option.toList hu
    have hwritten := (h.write hu held).quiet (l := .write held) rfl rfl
    rw [List.append_nil] at hwritten
    exact ⟨taken, _, hwrites.symm ▸ hwritten⟩
  | other u held =>
    obtain ⟨hu, rfl⟩ := Option.ite_some_none_eq_some.mp hs
    exact ⟨taken, _, (h.other hu held).quiet rfl rfl⟩
  | shutdown =>
    obtain ⟨-, rfl⟩ := Option.ite_some_none_eq_some.mp hs
    have hclosed : Follows config cbConfig heap ls taken calls done
        { s with channel := s.channel.close } := { h with delivers := h.delivers.close }
    exact ⟨taken, calls, hclosed.quiet rfl rfl⟩

theorem follows_run
    (hr : Runs.run (step config enabled) (start cbConfig heap) ls = some s) :
    ∃ taken calls, Follows config cbConfig heap ls taken calls
      (written config enabled cbConfig heap ls) s := by
  refine Runs.log_invariant (I := fun ls done s => ∃ taken calls,
    Follows config cbConfig heap ls taken calls done s) ?_ ?_ hr
  · exact ⟨[], [], follows_start config cbConfig heap⟩
  · rintro ls done l s s' ⟨taken, calls, h⟩ hs
    exact h.step hs

/-! ## What the sections hold -/

def sentOf (config : ConsulConfig) (ls : List (PipelineLabel W))
    (brings : RouteUpdate W → Option (List (RouteDef W))) (i : Sender) :
    List (List (RouteDef W)) :=
  (begun config ls i).filterMap brings

def underWay (s : Pipeline W) (brings : RouteUpdate W → Option (List (RouteDef W)))
    (i : Sender) : List (List (RouteDef W)) :=
  (s.handling.toList ++ sentBy i s.channel.queue ++ s.channel.held i).filterMap brings

/-- What the handler has written for a source is what its watcher has sent up to some point, the
section of the source holds the last of it, and until the handler is gone the rest is under way. -/
def InStep (config : ConsulConfig) (ls : List (PipelineLabel W)) (written : List (RouteUpdate W))
    (s : Pipeline W) (brings : RouteUpdate W → Option (List (RouteDef W))) (i : Sender)
    (source : RouteSource) : Prop :=
  written.filterMap brings <+: sentOf config ls brings i ∧
    (s.channel.isOpen →
      sentOf config ls brings i = written.filterMap brings ++ s.underWay brings i) ∧
    s.managed.registry.ofSource source =
      markSources ((written.filterMap brings).getLast?.getD []) source

omit [Platform] [WeightText W] in
theorem conserved_filterMap {brings : RouteUpdate W → Option (List (RouteDef W))} {i : Sender}
    {written : List (List (RouteDef W))}
    {sent : Sender → List (RouteUpdate W)} (hdelivers : s.channel.Delivers channelCap sent taken)
    (hwritten : (sentBy i taken).filterMap brings =
      written ++ (s.handling.bind brings).toList) :
    written <+: (sent i).filterMap brings ∧
      (s.channel.isOpen → (sent i).filterMap brings = written ++ s.underWay brings i) := by
  constructor
  · have hprefix := (hdelivers.ordered i).filterMap brings
    rw [hwritten] at hprefix
    exact (List.prefix_append _ _).trans hprefix
  · intro hopen
    have hhandling : s.handling.toList.filterMap brings = (s.handling.bind brings).toList := by
      cases s.handling with
      | none => rfl
      | some u => cases hu : brings u <;> simp [hu]
    rw [hdelivers.conserved hopen i, sentBy_append, List.filterMap_append, List.filterMap_append,
      hwritten, underWay, List.filterMap_append, List.filterMap_append, hhandling]
    simp only [List.append_assoc]

/-- However the watchers, the handler and the other tasks take turns, the sections of the watchers
hold what was sent for them, in order, without loss or repetition, up to what is still under way,
the channel is never too full, and the table is the one of the registry. -/
theorem inStep_run
    (hr : Runs.run (step config enabled) (start cbConfig heap) ls = some s) :
    let done := written config enabled cbConfig heap ls
    InStep config ls done s servicesOf .service .consulService ∧
      InStep config ls done s kvOf .kv .consulKv ∧
      s.channel.queue.length ≤ channelCap ∧ s.managed.Published := by
  obtain ⟨taken, calls, h⟩ := follows_run hr
  have hsections := ManagedRouteTable.ofSource_run cbConfig heap calls
  rw [← h.managed] at hsections
  have hservice := hsections .consulService
  have hkvSection := hsections .consulKv
  obtain ⟨hservices, hservicesOpen⟩ := conserved_filterMap h.delivers h.services
  obtain ⟨hkv, hkvOpen⟩ := conserved_filterMap h.delivers h.kv
  refine ⟨⟨hservices, hservicesOpen, ?_⟩, ⟨hkv, hkvOpen, ?_⟩, h.delivers.room, ?_⟩
  · rw [← h.servicesCalls]
    exact hservice
  · rw [← h.kvCalls]
    exact hkvSection
  · rw [h.managed]
    exact ManagedRouteTable.published_run cbConfig heap calls

end Run

end Pipeline

/-! ## An example -/

namespace Pipeline

section Example

attribute [local instance] Platform.plain RouteParser.wholeWeights

/-- Both watchers send, and the update of the service watcher is written first. -/
def sampleLabels : List (PipelineLabel ℚ) :=
  [.serviceRound ⟨.ok Watch.webSnapshot, Watch.webCatalog, true⟩, .send .service,
    .kvRound (.ok ([⟨"routes", some "route add web /web http://10.0.0.1:80/"⟩], 3)), .send .kv,
    .receive, .other (.loadStatic []) [], .write []]

theorem inStep_run_sampleLabels :
    ∃ s : Pipeline ℚ, Runs.run (step {} fun _ => true) (start none .empty) sampleLabels = some s ∧
      s.managed.registry.serviceRoutes.map (·.dst) = ["http://10.0.0.1:80/"] ∧
      (s.underWay kvOf .kv).map (·.length) = [1] ∧
      let done := written {} (fun _ => true) none .empty sampleLabels
      InStep {} sampleLabels done s servicesOf .service .consulService ∧
        InStep {} sampleLabels done s kvOf .kv .consulKv := by
  have hrun : (Runs.run (step {} fun _ => true) (start none .empty) sampleLabels).map (fun s =>
      (s.managed.registry.serviceRoutes.map (·.dst), (s.underWay kvOf .kv).map (·.length))) =
      some (["http://10.0.0.1:80/"], [1]) := by
    decide +kernel
  obtain ⟨s, hs, heq⟩ := Option.map_eq_some_iff.mp hrun
  obtain ⟨hservices, hkv⟩ := Prod.mk.injEq .. ▸ heq
  obtain ⟨hservice, hkvSection, -⟩ := inStep_run hs
  exact ⟨s, hs, hservices, hkv, hservice, hkvSection⟩

end Example

end Pipeline

end Consul

end SentirumLb
