import SentirumLb.Lib.Backoff
import SentirumLb.Lib.Runs
import SentirumLb.Proxy.TcpProxy
import SentirumLb.Route.TcpPorts
import SentirumLb.Tls.Startup

/-! # The listeners of the TCP proxy

A fixed listener runs until shutdown. The dynamic manager compares the ports of
the published table with those it has listeners for, stops some and starts others.
A listener is a task of its own that tries to bind until it can or is told to
stop, so the manager, the tasks, updates of the table and other programs on the
same machine take turns in any order.
-/

namespace SentirumLb.Tcp

variable {W : Type}

inductive ListenerPhase where
  | binding
  | waiting
  | listening
  | ended
deriving DecidableEq

/-- A task of `run_tcp_listener_with_watch`. -/
structure ListenerTask where
  listen : String
  listenPort : UInt16
  mode : ListenerMode
  phase : ListenerPhase := .binding
  backoffSecs : ℕ := 1
  shutdown : Bool := false

namespace ListenerTask

def isListening (t : ListenerTask) : Bool := t.phase == .listening

def retry (t : ListenerTask) : ListenerTask :=
  { t with phase := .binding, backoffSecs := Backoff.next 60 t.backoffSecs }

def tell (t : ListenerTask) : ListenerTask := { t with shutdown := true }

def goto (phase : ListenerPhase) (t : ListenerTask) : ListenerTask := { t with phase := phase }

end ListenerTask

inductive ManagerPhase where
  | entering
  | selecting
  | closing (ports existing : List UInt16)
  | opening (ports missing : List UInt16)
  /-- It waits for shutdown beside a fixed listener. -/
  | serving
  | stopping
  | awaiting (i : ℕ)
  | ended
deriving DecidableEq

structure TcpService (W : Type) where
  table : Table W
  phase : ManagerPhase := .ended
  listeners : AssocMap UInt16 ℕ := ∅
  tasks : List ListenerTask := []
  occupied : List String := []

inductive TcpLabel (W : Type) where
  | publish (table : Table W)
  | occupy (addr : String)
  | vacate (addr : String)
  | tick
  | shutdown
  | manage
  /-- The service comes to the listener of a port; its map has them in any order. -/
  | visit (port : UInt16)
  /-- The service does not wait any longer for a task. -/
  | graceOver
  | bound (i : ℕ)
  | refused (i : ℕ)
  | wake (i : ℕ)
  | notice (i : ℕ)

namespace TcpService

def spawn (listen : String) (port : UInt16) (mode : ListenerMode) (s : TcpService W) :
    TcpService W :=
  { s with
    listeners := s.listeners.insert port s.tasks.length
    tasks := s.tasks ++ [{ listen := listen, listenPort := port, mode := mode }] }

def fixed (listen : String) (mode : ListenerMode) (table : Table W) : TcpService W :=
  match parseListenerPort listen with
  | none => { table := table }
  | some port => spawn listen port mode { table := table, phase := .serving }

def start (mode : TcpMode) (httpsFallbackAddr : Option String) (config : Config)
    (table : Table W) : TcpService W :=
  match mode with
  | .disabled => { table := table }
  | .tcp listen => fixed listen .plain table
  | .tcpSni listen => fixed listen .sni table
  | .httpsTcpSni =>
      match httpsFallbackAddr with
      | none => { table := table }
      | some addr =>
          fixed (tlsListenAddr config.server.listen config.tls.listen) (.httpsFallback addr) table
  | .tcpDynamic _ => { table := table, phase := .entering }

def free (s : TcpService W) (addr : String) : Bool :=
  !s.occupied.contains addr && s.tasks.all fun t => !(t.isListening && t.listen == addr)

def update (i : ℕ) (f : ListenerTask → ListenerTask) (s : TcpService W) : TcpService W :=
  { s with tasks := s.tasks.modify i f }

def close (port : UInt16) (i : ℕ) (s : TcpService W) : TcpService W :=
  { s.update i .tell with listeners := s.listeners.erase port }

def openPort (port : UInt16) (s : TcpService W) : TcpService W :=
  s.spawn ("0.0.0.0:" ++ toString port.toNat) port .plain

def manage (s : TcpService W) : Option (TcpService W) :=
  match s.phase with
  | .closing ports [] => some { s with phase := .opening ports ports }
  | .opening _ [] => some { s with phase := .selecting }
  | .opening ports (port :: missing) =>
      if (s.listeners.lookup port).isSome then some { s with phase := .opening ports missing }
      else some { s.openPort port with phase := .opening ports missing }
  | .stopping => if s.listeners.entries.isEmpty then some { s with phase := .ended } else none
  | .awaiting i =>
      if s.tasks[i]?.all (·.phase = .ended) then some { s with phase := .stopping } else none
  | _ => none

/-- What the service does with the listener of a port that it goes through. -/
def visit (port : UInt16) (s : TcpService W) : Option (TcpService W) :=
  match s.phase with
  | .closing ports existing =>
      if existing.contains port then
        if ports.contains port then some { s with phase := .closing ports (existing.erase port) }
        else
          match s.listeners.lookup port with
          | some i => some { s.close port i with phase := .closing ports (existing.erase port) }
          | none => some { s with phase := .closing ports (existing.erase port) }
      else none
  | .stopping =>
      (s.listeners.lookup port).map fun i => { s.close port i with phase := .awaiting i }
  | _ => none

def step (s : TcpService W) : TcpLabel W → Option (TcpService W)
  | .publish table => some { s with table := table }
  | .occupy addr => if s.free addr then some { s with occupied := addr :: s.occupied } else none
  | .vacate addr => some { s with occupied := s.occupied.filter (· ≠ addr) }
  | .tick =>
      match s.phase with
      | .entering | .selecting =>
          some { s with phase := .closing s.table.tcpListenerPorts s.listeners.keys }
      | _ => none
  | .shutdown =>
      match s.phase with
      | .selecting | .serving => some { s with phase := .stopping }
      | _ => none
  | .manage => s.manage
  | .visit port => s.visit port
  | .graceOver =>
      match s.phase with
      | .awaiting _ => some { s with phase := .stopping }
      | _ => none
  | .bound i =>
      if s.tasks[i]?.any fun t => t.phase = .binding ∧ s.free t.listen then
        some (s.update i (.goto .listening))
      else none
  | .refused i =>
      if s.tasks[i]?.any (·.phase = .binding) then some (s.update i (.goto .waiting)) else none
  | .wake i => if s.tasks[i]?.any (·.phase = .waiting) then some (s.update i .retry) else none
  | .notice i =>
      if s.tasks[i]?.any fun t => t.shutdown ∧ (t.phase = .waiting ∨ t.phase = .listening) then
        some (s.update i (.goto .ended))
      else none

/-! ## Every handle is of a task that goes on -/

/-- The tasks that are not told to stop are those of the handles. They go on, and no two tasks
listen on one address. -/
structure Ok (s : TcpService W) : Prop where
  owned : ∀ port i, s.listeners.lookup port = some i →
    ∃ t : ListenerTask, s.tasks[i]? = some t ∧ t.listenPort = port
  untold_iff : ∀ (i : ℕ) (t : ListenerTask), s.tasks[i]? = some t →
    (t.shutdown = false ↔ s.listeners.lookup t.listenPort = some i)
  alive : ∀ (i : ℕ) (t : ListenerTask), s.tasks[i]? = some t → t.shutdown = false → t.phase ≠ .ended
  exclusive : ∀ (i j : ℕ) (t u : ListenerTask), s.tasks[i]? = some t → s.tasks[j]? = some u →
    t.phase = .listening → u.phase = .listening → t.listen = u.listen → i = j
  unoccupied : ∀ (i : ℕ) (t : ListenerTask), s.tasks[i]? = some t → t.phase = .listening →
    t.listen ∉ s.occupied
  backoff : ∀ (i : ℕ) (t : ListenerTask), s.tasks[i]? = some t →
    ∃ k, t.backoffSecs = Backoff.wait 60 k

variable {s s' : TcpService W} {i j : ℕ} {t u : ListenerTask} {port : UInt16}

theorem getElem?_update {f : ListenerTask → ListenerTask} :
    (s.update i f).tasks[j]? = some u ↔
      ∃ t, s.tasks[j]? = some t ∧ u = if i = j then f t else t := by
  rw [update, List.getElem?_modify, Option.map_eq_map, Option.map_eq_some_iff]
  constructor
  · rintro ⟨t, ht, rfl⟩
    exact ⟨t, ht, rfl⟩
  · rintro ⟨t, ht, rfl⟩
    exact ⟨t, ht, rfl⟩

theorem update_cases {f : ListenerTask → ListenerTask} (ht : s.tasks[i]? = some t)
    (hu : (s.update i f).tasks[j]? = some u) :
    (j = i ∧ u = f t) ∨ (j ≠ i ∧ s.tasks[j]? = some u) := by
  obtain ⟨v, hv, rfl⟩ := getElem?_update.mp hu
  by_cases hij : i = j
  · subst hij
    cases ht.symm.trans hv
    exact .inl ⟨rfl, if_pos rfl⟩
  · rw [if_neg hij]
    exact .inr ⟨Ne.symm hij, hv⟩

theorem free_iff {addr : String} : s.free addr ↔
    addr ∉ s.occupied ∧
      ∀ (i : ℕ) (t : ListenerTask), s.tasks[i]? = some t → t.phase = .listening →
        t.listen ≠ addr := by
  simp only [free, ListenerTask.isListening, Bool.and_eq_true, Bool.not_eq_true',
    List.contains_eq_mem, decide_eq_false_iff_not, List.all_eq_true, Bool.and_eq_false_imp,
    beq_iff_eq, beq_eq_false_iff_ne]
  constructor
  · rintro ⟨hoccupied, hall⟩
    exact ⟨hoccupied, fun i t ht => hall t (List.mem_of_getElem? ht)⟩
  · rintro ⟨hoccupied, hall⟩
    refine ⟨hoccupied, fun t ht => ?_⟩
    obtain ⟨i, hi⟩ := List.getElem?_of_mem ht
    exact hall i t hi

structure Proceeds (s : TcpService W) (f : ListenerTask → ListenerTask) (t : ListenerTask) :
    Prop where
  listen : (f t).listen = t.listen
  listenPort : (f t).listenPort = t.listenPort
  shutdown : (f t).shutdown = t.shutdown
  alive : (f t).phase = .ended → t.shutdown = true
  listening : (f t).phase = .listening → s.free t.listen
  backoff : (∃ k, t.backoffSecs = Backoff.wait 60 k) → ∃ k, (f t).backoffSecs = Backoff.wait 60 k

theorem Ok.update (h : s.Ok) {f : ListenerTask → ListenerTask} (ht : s.tasks[i]? = some t)
    (hf : s.Proceeds f t) : (s.update i f).Ok := by
  constructor
  · intro port j hport
    obtain ⟨v, hv, hvport⟩ := h.owned port j hport
    refine ⟨_, getElem?_update.mpr ⟨v, hv, rfl⟩, ?_⟩
    by_cases hij : i = j
    · subst hij
      cases ht.symm.trans hv
      rw [if_pos rfl, hf.listenPort, hvport]
    · rw [if_neg hij, hvport]
  · intro j u hu
    obtain ⟨rfl, rfl⟩ | ⟨-, hu⟩ := update_cases ht hu
    · rw [hf.shutdown, hf.listenPort]
      exact h.untold_iff _ t ht
    · exact h.untold_iff j u hu
  · intro j u hu hshutdown hended
    obtain ⟨rfl, rfl⟩ | ⟨-, hu⟩ := update_cases ht hu
    · rw [hf.shutdown, hf.alive hended] at hshutdown
      cases hshutdown
    · exact h.alive j u hu hshutdown hended
  · intro j k u v hu hv hlistening hlistening' hlisten
    obtain ⟨rfl, rfl⟩ | ⟨-, hu'⟩ := update_cases ht hu
    · obtain ⟨rfl, -⟩ | ⟨-, hv'⟩ := update_cases ht hv
      · rfl
      · have hfree := (free_iff.mp (hf.listening hlistening)).2 k v hv' hlistening'
        rw [hf.listen] at hlisten
        exact absurd hlisten.symm hfree
    · obtain ⟨rfl, rfl⟩ | ⟨-, hv'⟩ := update_cases ht hv
      · have hfree := (free_iff.mp (hf.listening hlistening')).2 j u hu' hlistening
        rw [hf.listen] at hlisten
        exact absurd hlisten hfree
      · exact h.exclusive j k u v hu' hv' hlistening hlistening' hlisten
  · intro j u hu hlistening
    obtain ⟨rfl, rfl⟩ | ⟨-, hu⟩ := update_cases ht hu
    · rw [hf.listen]
      exact (free_iff.mp (hf.listening hlistening)).1
    · exact h.unoccupied j u hu hlistening
  · intro j u hu
    obtain ⟨rfl, rfl⟩ | ⟨-, hu⟩ := update_cases ht hu
    · exact hf.backoff (h.backoff _ t ht)
    · exact h.backoff j u hu

theorem Ok.close (h : s.Ok) (hport : s.listeners.lookup port = some i) : (s.close port i).Ok := by
  obtain ⟨t, ht, htport⟩ := h.owned port i hport
  have hsame : ∀ (j : ℕ) (u : ListenerTask), (s.close port i).tasks[j]? = some u →
      ∃ v : ListenerTask, s.tasks[j]? = some v ∧
        u.listen = v.listen ∧ u.phase = v.phase ∧ u.backoffSecs = v.backoffSecs := by
    intro j u hu
    obtain ⟨rfl, rfl⟩ | ⟨-, hu⟩ := update_cases ht hu
    · exact ⟨t, ht, rfl, rfl, rfl⟩
    · exact ⟨u, hu, rfl, rfl, rfl⟩
  constructor
  · intro port' j hport'
    have hne : port' ≠ port := by
      rintro rfl
      change (s.listeners.erase port').lookup port' = some j at hport'
      rw [AList.lookup_erase] at hport'
      cases hport'
    change (s.listeners.erase port).lookup port' = some j at hport'
    rw [AList.lookup_erase_ne hne] at hport'
    obtain ⟨v, hv, hvport⟩ := h.owned port' j hport'
    have hji : i ≠ j := by
      rintro rfl
      cases ht.symm.trans hv
      exact hne (hvport.symm.trans htport)
    exact ⟨v, getElem?_update.mpr ⟨v, hv, (if_neg hji).symm⟩, hvport⟩
  · intro j u hu
    change _ ↔ (s.listeners.erase port).lookup u.listenPort = some j
    obtain ⟨rfl, rfl⟩ | ⟨hji, hu⟩ := update_cases ht hu
    · change true = false ↔ (s.listeners.erase port).lookup t.listenPort = _
      rw [htport, AList.lookup_erase]
      simp
    · rw [h.untold_iff j u hu]
      by_cases huport : u.listenPort = port
      · rw [huport, hport, AList.lookup_erase]
        simp [Ne.symm hji]
      · rw [AList.lookup_erase_ne huport]
  · intro j u hu hshutdown
    obtain ⟨rfl, rfl⟩ | ⟨-, hu⟩ := update_cases ht hu
    · cases hshutdown
    · exact h.alive j u hu hshutdown
  · intro j k u v hu hv hlistening hlistening' hlisten
    obtain ⟨u', hu', hulisten, huphase, -⟩ := hsame j u hu
    obtain ⟨v', hv', hvlisten, hvphase, -⟩ := hsame k v hv
    rw [huphase] at hlistening
    rw [hvphase] at hlistening'
    rw [hulisten, hvlisten] at hlisten
    exact h.exclusive j k u' v' hu' hv' hlistening hlistening' hlisten
  · intro j u hu hlistening
    obtain ⟨u', hu', hulisten, huphase, -⟩ := hsame j u hu
    rw [hulisten]
    exact h.unoccupied j u' hu' (huphase ▸ hlistening)
  · intro j u hu
    obtain ⟨u', hu', -, -, hubackoff⟩ := hsame j u hu
    rw [hubackoff]
    exact h.backoff j u' hu'

theorem Ok.spawn (h : s.Ok) (hport : s.listeners.lookup port = none) (listen : String)
    (mode : ListenerMode) : (s.spawn listen port mode).Ok := by
  have hcases : ∀ (j : ℕ) (u : ListenerTask), (s.spawn listen port mode).tasks[j]? = some u →
      s.tasks[j]? = some u ∨ (j = s.tasks.length ∧ u.listenPort = port ∧ u.phase = .binding ∧
        u.shutdown = false ∧ u.backoffSecs = 1) := by
    intro j u hu
    obtain hlt | rfl | hgt := lt_trichotomy j s.tasks.length
    · exact .inl ((List.getElem?_append_left hlt).symm.trans hu)
    · have hnew := (List.getElem?_concat_length).symm.trans hu
      cases hnew
      exact .inr ⟨rfl, rfl, rfl, rfl, rfl⟩
    · have hnone : (s.spawn listen port mode).tasks[j]? = none := by
        rw [List.getElem?_eq_none_iff, TcpService.spawn, List.length_append]
        exact hgt
      rw [hnone] at hu
      cases hu
  have hnew : ∀ (j : ℕ) (u : ListenerTask), s.tasks[j]? = some u → j ≠ s.tasks.length := by
    intro j u hu hj
    have hlt := (List.getElem?_eq_some_iff.mp hu).1
    omega
  constructor
  · intro port' j hport'
    change (s.listeners.insert port s.tasks.length).lookup port' = some j at hport'
    by_cases hne : port' = port
    · subst hne
      rw [AList.lookup_insert] at hport'
      cases hport'
      exact ⟨_, List.getElem?_concat_length, rfl⟩
    · rw [AList.lookup_insert_ne hne] at hport'
      obtain ⟨v, hv, hvport⟩ := h.owned port' j hport'
      have hlt := (List.getElem?_eq_some_iff.mp hv).1
      exact ⟨v, (List.getElem?_append_left hlt).trans hv, hvport⟩
  · intro j u hu
    change _ ↔ (s.listeners.insert port s.tasks.length).lookup u.listenPort = some j
    obtain hu | ⟨rfl, huport, -, hshutdown, -⟩ := hcases j u hu
    · rw [h.untold_iff j u hu]
      by_cases huport : u.listenPort = port
      · rw [huport, hport, AList.lookup_insert]
        simp [Ne.symm (hnew j u hu)]
      · rw [AList.lookup_insert_ne huport]
    · rw [huport, AList.lookup_insert, hshutdown]
      simp
  · intro j u hu hshutdown
    obtain hu | ⟨-, -, hphase, -, -⟩ := hcases j u hu
    · exact h.alive j u hu hshutdown
    · rw [hphase]
      simp
  · intro j k u v hu hv hlistening hlistening' hlisten
    obtain hu | ⟨-, -, hphase, -, -⟩ := hcases j u hu
    · obtain hv | ⟨-, -, hphase, -, -⟩ := hcases k v hv
      · exact h.exclusive j k u v hu hv hlistening hlistening' hlisten
      · rw [hphase] at hlistening'
        cases hlistening'
    · rw [hphase] at hlistening
      cases hlistening
  · intro j u hu hlistening
    obtain hu | ⟨-, -, hphase, -, -⟩ := hcases j u hu
    · exact h.unoccupied j u hu hlistening
    · rw [hphase] at hlistening
      cases hlistening
  · intro j u hu
    obtain hu | ⟨-, -, -, -, hbackoff⟩ := hcases j u hu
    · exact h.backoff j u hu
    · exact ⟨0, by rw [hbackoff, Backoff.wait_zero (by decide)]⟩

theorem proceeds_listening (hfree : s.free t.listen) :
    s.Proceeds (.goto .listening) t :=
  ⟨rfl, rfl, rfl, nofun, fun _ => hfree, id⟩

theorem proceeds_waiting : s.Proceeds (.goto .waiting) t :=
  ⟨rfl, rfl, rfl, nofun, nofun, id⟩

theorem proceeds_retry : s.Proceeds .retry t := by
  refine ⟨rfl, rfl, rfl, nofun, nofun, ?_⟩
  rintro ⟨k, hk⟩
  exact ⟨k + 1, by rw [ListenerTask.retry, hk, Backoff.next_wait]⟩

theorem proceeds_ended (hshutdown : t.shutdown = true) : s.Proceeds (.goto .ended) t :=
  ⟨rfl, rfl, rfl, fun _ => hshutdown, nofun, id⟩

theorem Ok.of_eq (h : s.Ok) (hlisteners : s'.listeners = s.listeners) (htasks : s'.tasks = s.tasks)
    (hoccupied : ∀ addr ∈ s'.occupied, addr ∈ s.occupied ∨ s.free addr) : s'.Ok := by
  constructor
  · rw [hlisteners, htasks]
    exact h.owned
  · rw [hlisteners, htasks]
    exact h.untold_iff
  · rw [htasks]
    exact h.alive
  · rw [htasks]
    exact h.exclusive
  · rw [htasks]
    intro i t ht hlistening hmem
    obtain hmem | hfree := hoccupied _ hmem
    · exact h.unoccupied i t ht hlistening hmem
    · exact (free_iff.mp hfree).2 i t ht hlistening rfl
  · rw [htasks]
    exact h.backoff

theorem Ok.phase (h : s.Ok) (phase : ManagerPhase) : Ok { s with phase := phase } :=
  h.of_eq rfl rfl fun _ => .inl

inductive Turn (s : TcpService W) : TcpService W → Prop where
  | closed {ports : List UInt16} (hphase : s.phase = .closing ports []) :
      Turn s { s with phase := .opening ports ports }
  | kept {ports existing : List UInt16} {port : UInt16} (hphase : s.phase = .closing ports existing)
      (hkept : port ∈ ports ∨ s.listeners.lookup port = none) :
      Turn s { s with phase := .closing ports (existing.erase port) }
  | close {ports existing : List UInt16} {port : UInt16} {i : ℕ}
      (hphase : s.phase = .closing ports existing) (hports : port ∉ ports)
      (hport : s.listeners.lookup port = some i) :
      Turn s { s.close port i with phase := .closing ports (existing.erase port) }
  | opened {ports : List UInt16} (hphase : s.phase = .opening ports []) :
      Turn s { s with phase := .selecting }
  | present {ports missing : List UInt16} {port : UInt16}
      (hphase : s.phase = .opening ports (port :: missing))
      (hport : (s.listeners.lookup port).isSome) :
      Turn s { s with phase := .opening ports missing }
  | openPort {ports missing : List UInt16} {port : UInt16}
      (hphase : s.phase = .opening ports (port :: missing))
      (hport : s.listeners.lookup port = none) :
      Turn s { s.openPort port with phase := .opening ports missing }
  | stopped (hphase : s.phase = .stopping) (hnone : s.listeners.entries = []) :
      Turn s { s with phase := .ended }
  | stop {port : UInt16} {i : ℕ} (hphase : s.phase = .stopping)
      (hport : s.listeners.lookup port = some i) :
      Turn s { s.close port i with phase := .awaiting i }
  | joined {i : ℕ} (hphase : s.phase = .awaiting i) : Turn s { s with phase := .stopping }

theorem turn_of_manage (hs : s.manage = some s') : s.Turn s' := by
  unfold TcpService.manage at hs
  split at hs
  · next ports hphase =>
    cases hs
    exact .closed hphase
  · next ports hphase =>
    cases hs
    exact .opened hphase
  · next ports port missing hphase =>
    split at hs
    · next hport =>
      cases hs
      exact .present hphase hport
    · next hport =>
      cases hs
      exact .openPort hphase (Option.not_isSome_iff_eq_none.mp hport)
  · next hphase =>
    obtain ⟨hnone, hs⟩ := Option.ite_none_right_eq_some.mp hs
    cases hs
    exact .stopped hphase (List.isEmpty_iff.mp hnone)
  · next i hphase =>
    obtain ⟨-, hs⟩ := Option.ite_none_right_eq_some.mp hs
    cases hs
    exact .joined hphase
  · cases hs

theorem turn_of_visit (hs : s.visit port = some s') : s.Turn s' := by
  unfold TcpService.visit at hs
  split at hs
  · next ports existing hphase =>
    obtain ⟨-, hs⟩ := Option.ite_none_right_eq_some.mp hs
    split at hs
    · next hports =>
      cases hs
      exact .kept hphase (.inl (by simpa using hports))
    · next hports =>
      split at hs
      · next i hport =>
        cases hs
        exact .close hphase (by simpa using hports) hport
      · next hport =>
        cases hs
        exact .kept hphase (.inr hport)
  · next hphase =>
    obtain ⟨i, hport, rfl⟩ := Option.map_eq_some_iff.mp hs
    exact .stop hphase hport
  · cases hs

theorem Ok.turn (h : s.Ok) (hs : s.Turn s') : s'.Ok := by
  cases hs with
  | closed | kept | opened | present | stopped | joined => exact h.phase _
  | close _ _ hport => exact (h.close hport).phase _
  | openPort _ hport => exact (h.spawn hport _ _).phase _
  | stop _ hport => exact (h.close hport).phase _

theorem Ok.step (h : s.Ok) {l : TcpLabel W} (hs : s.step l = some s') : s'.Ok := by
  cases l with
  | publish table =>
    cases hs
    exact h.of_eq rfl rfl fun _ => .inl
  | occupy addr =>
    obtain ⟨hfree, hs⟩ := Option.ite_none_right_eq_some.mp hs
    cases hs
    refine h.of_eq rfl rfl ?_
    rintro addr' (_ | ⟨_, hmem⟩)
    · exact .inr hfree
    · exact .inl hmem
  | vacate addr =>
    cases hs
    exact h.of_eq rfl rfl fun addr' hmem => .inl (List.mem_filter.mp hmem).1
  | tick =>
    rw [TcpService.step] at hs
    split at hs
    all_goals
      cases hs
      try exact h.phase _
  | shutdown =>
    rw [TcpService.step] at hs
    split at hs
    all_goals
      cases hs
      try exact h.phase _
  | manage => exact h.turn (turn_of_manage hs)
  | visit port => exact h.turn (turn_of_visit hs)
  | graceOver =>
    rw [TcpService.step] at hs
    split at hs
    · cases hs
      exact h.phase _
    · cases hs
  | bound i =>
    obtain ⟨hany, hs⟩ := Option.ite_none_right_eq_some.mp hs
    obtain ⟨t, ht, hcond⟩ := (Option.any_eq_true _ _).mp hany
    cases hs
    exact h.update ht (proceeds_listening (of_decide_eq_true hcond).2)
  | refused i =>
    obtain ⟨hany, hs⟩ := Option.ite_none_right_eq_some.mp hs
    obtain ⟨t, ht, -⟩ := (Option.any_eq_true _ _).mp hany
    cases hs
    exact h.update ht proceeds_waiting
  | wake i =>
    obtain ⟨hany, hs⟩ := Option.ite_none_right_eq_some.mp hs
    obtain ⟨t, ht, -⟩ := (Option.any_eq_true _ _).mp hany
    cases hs
    exact h.update ht proceeds_retry
  | notice i =>
    obtain ⟨hany, hs⟩ := Option.ite_none_right_eq_some.mp hs
    obtain ⟨t, ht, hcond⟩ := (Option.any_eq_true _ _).mp hany
    cases hs
    exact h.update ht (proceeds_ended (of_decide_eq_true hcond).1)

theorem ok_idle (table : Table W) (phase : ManagerPhase) :
    Ok { table := table, phase := phase } := by
  constructor <;> intros <;> simp_all

theorem ok_fixed (listen : String) (mode : ListenerMode) (table : Table W) :
    (fixed listen mode table).Ok := by
  unfold fixed
  cases parseListenerPort listen with
  | none => exact ok_idle table _
  | some port => exact Ok.spawn (ok_idle table .serving) rfl listen mode

theorem ok_start (mode : TcpMode) (httpsFallbackAddr : Option String) (config : Config)
    (table : Table W) : (start mode httpsFallbackAddr config table).Ok := by
  unfold start
  split
  · exact ok_idle table _
  · exact ok_fixed _ _ table
  · exact ok_fixed _ _ table
  · split
    · exact ok_idle table _
    · exact ok_fixed _ _ table
  · exact ok_idle table _

/-! ## The ports that have a listener -/

def look (seen : Table W × List UInt16) : TcpLabel W → Table W × List UInt16
  | .publish table => (table, seen.2)
  | .tick => (seen.1, seen.1.tcpListenerPorts)
  | _ => seen

def seenPorts (table : Table W) (ls : List (TcpLabel W)) : Table W × List UInt16 :=
  ls.foldl look (table, [])

/-- How far the handles have come from what they were to those of the ports. -/
def Progress (ports : List UInt16) (handles : AssocMap UInt16 ℕ) : ManagerPhase → Prop
  | .entering => ∀ port, port ∉ handles
  | .selecting => ∀ port, port ∈ handles ↔ port ∈ ports
  | .closing ports' existing => ports' = ports ∧ ∀ port ∈ handles, port ∈ ports ∨ port ∈ existing
  | .opening ports' missing => ports' = ports ∧ missing ⊆ ports ∧
      (∀ port ∈ handles, port ∈ ports) ∧ ∀ port ∈ ports, port ∈ handles ∨ port ∈ missing
  | .serving => ∃ port, ∀ port', port' ∈ handles ↔ port' = port
  | .stopping | .awaiting _ => True
  | .ended => ∀ port, port ∉ handles

structure Manages (seen : Table W × List UInt16) (s : TcpService W) : Prop where
  table : s.table = seen.1
  progress : Progress seen.2 s.listeners s.phase

variable {seen : Table W × List UInt16}

theorem Manages.turn (h : Manages seen s) (hs : s.Turn s') : Manages seen s' := by
  obtain ⟨htable, hprogress⟩ := h
  cases hs with
  | @closed ports hphase =>
    rw [hphase] at hprogress
    obtain ⟨rfl, hexisting⟩ := hprogress
    refine ⟨htable, rfl, List.Subset.refl _, fun port hport => ?_, fun port => .inr⟩
    simpa using hexisting port hport
  | @kept ports existing port hphase hkept =>
    rw [hphase] at hprogress
    obtain ⟨rfl, hexisting⟩ := hprogress
    refine ⟨htable, rfl, fun port' hport' => ?_⟩
    obtain hports | hmem := hexisting port' hport'
    · exact .inl hports
    · by_cases hvisited : port' = port
      · subst hvisited
        obtain hports | hnone := hkept
        · exact .inl hports
        · exact absurd hport' (AList.lookup_eq_none.mp hnone)
      · exact .inr ((List.mem_erase_of_ne hvisited).mpr hmem)
  | @close ports existing port i hphase hports hport =>
    rw [hphase] at hprogress
    obtain ⟨rfl, hexisting⟩ := hprogress
    refine ⟨htable, rfl, fun port' hport' => ?_⟩
    obtain ⟨hne, hmem⟩ := AList.mem_erase.mp hport'
    exact (hexisting port' hmem).imp_right (List.mem_erase_of_ne hne).mpr
  | @opened ports hphase =>
    rw [hphase] at hprogress
    obtain ⟨rfl, -, hsub, hall⟩ := hprogress
    exact ⟨htable, fun port => ⟨hsub port, fun hmem => by simpa using hall port hmem⟩⟩
  | @present ports missing port hphase hport =>
    rw [hphase] at hprogress
    obtain ⟨rfl, hmissing, hsub, hall⟩ := hprogress
    refine ⟨htable, rfl, (List.cons_subset.mp hmissing).2, hsub, fun port' hport' => ?_⟩
    obtain hmem | hmem := hall port' hport'
    · exact .inl hmem
    · obtain rfl | hmem := List.mem_cons.mp hmem
      · exact .inl (AList.lookup_isSome.mp hport)
      · exact .inr hmem
  | @openPort ports missing port hphase hport =>
    rw [hphase] at hprogress
    obtain ⟨rfl, hmissing, hsub, hall⟩ := hprogress
    obtain ⟨hports, hmissing⟩ := List.cons_subset.mp hmissing
    refine ⟨htable, rfl, hmissing, fun port' hport' => ?_, fun port' hport' => ?_⟩
    · obtain rfl | hmem := (AList.mem_insert _).mp hport'
      · exact hports
      · exact hsub port' hmem
    · obtain hmem | hmem := hall port' hport'
      · exact .inl ((AList.mem_insert _).mpr (.inr hmem))
      · obtain rfl | hmem := List.mem_cons.mp hmem
        · exact .inl ((AList.mem_insert _).mpr (.inl rfl))
        · exact .inr hmem
  | stopped hphase hnone =>
    refine ⟨htable, fun port hport => ?_⟩
    rw [AList.mem_keys, AList.keys, hnone] at hport
    cases hport
  | stop hphase hport => exact ⟨htable, trivial⟩
  | joined hphase => exact ⟨htable, trivial⟩

theorem Manages.step (h : Manages seen s) {l : TcpLabel W} (hs : s.step l = some s') :
    Manages (look seen l) s' := by
  cases l with
  | publish table =>
    cases hs
    exact ⟨rfl, h.progress⟩
  | vacate addr =>
    cases hs
    exact ⟨h.table, h.progress⟩
  | occupy addr =>
    obtain ⟨hfree, hs⟩ := Option.ite_none_right_eq_some.mp hs
    cases hs
    exact ⟨h.table, h.progress⟩
  | bound i | refused i | wake i | notice i =>
    obtain ⟨hany, hs⟩ := Option.ite_none_right_eq_some.mp hs
    cases hs
    exact ⟨h.table, h.progress⟩
  | tick =>
    rw [TcpService.step] at hs
    split at hs
    all_goals
      cases hs
      try exact ⟨h.table, by rw [h.table]; rfl, fun port => .inr⟩
  | shutdown =>
    rw [TcpService.step] at hs
    split at hs
    all_goals
      cases hs
      try exact ⟨h.table, trivial⟩
  | manage => exact h.turn (turn_of_manage hs)
  | visit port => exact h.turn (turn_of_visit hs)
  | graceOver =>
    rw [TcpService.step] at hs
    split at hs
    · cases hs
      exact ⟨h.table, trivial⟩
    · cases hs

theorem manages_idle (table : Table W) {phase : ManagerPhase}
    (hphase : phase = .entering ∨ phase = .ended) :
    Manages (table, []) { table := table, phase := phase } := by
  refine ⟨rfl, ?_⟩
  obtain rfl | rfl := hphase
  all_goals exact fun port => AList.notMem_empty port

theorem manages_fixed (listen : String) (mode : ListenerMode) (table : Table W) :
    Manages (table, []) (fixed listen mode table) := by
  unfold fixed
  cases parseListenerPort listen with
  | none => exact manages_idle table (.inr rfl)
  | some port =>
    refine ⟨rfl, port, fun port' => ?_⟩
    have hinsert : port' ∈ (spawn listen port mode
        ({ table := table, phase := .serving } : TcpService W)).listeners ↔
          port' = port ∨ port' ∈ (∅ : AssocMap UInt16 ℕ) := AList.mem_insert _
    rw [hinsert, or_iff_left (AList.notMem_empty port')]

theorem manages_start (mode : TcpMode) (httpsFallbackAddr : Option String) (config : Config)
    (table : Table W) : Manages (table, []) (start mode httpsFallbackAddr config table) := by
  unfold start
  split
  · exact manages_idle table (.inr rfl)
  · exact manages_fixed _ _ table
  · exact manages_fixed _ _ table
  · split
    · exact manages_idle table (.inr rfl)
    · exact manages_fixed _ _ table
  · exact manages_idle table (.inl rfl)

theorem manages_run {table : Table W} {ls : List (TcpLabel W)}
    (h : Manages (table, []) s) (hr : Runs.run step s ls = some s') :
    Manages (seenPorts table ls) s' := by
  refine Runs.trace_invariant (I := fun ls s => Manages (seenPorts table ls) s) h ?_ hr
  intro ls l s s' hls hs
  rw [seenPorts, List.foldl_append]
  exact hls.step hs

/-! ## A task does not give up, and ends when it is told to -/

theorem run_single {l : TcpLabel W} (hs : s.step l = some s') :
    Runs.run step s [l] = some s' := by
  rw [Runs.run_cons, hs]
  rfl

theorem step_bound (ht : s.tasks[i]? = some t) (hphase : t.phase = .binding)
    (hfree : s.free t.listen) :
    s.step (.bound i) = some (s.update i (.goto .listening)) := by
  simp [TcpService.step, ht, hphase, hfree]

theorem step_refused (ht : s.tasks[i]? = some t) (hphase : t.phase = .binding) :
    s.step (.refused i) = some (s.update i (.goto .waiting)) := by
  simp [TcpService.step, ht, hphase]

theorem step_wake (ht : s.tasks[i]? = some t) (hphase : t.phase = .waiting) :
    s.step (.wake i) = some (s.update i .retry) := by
  simp [TcpService.step, ht, hphase]

theorem step_notice (ht : s.tasks[i]? = some t) (hshutdown : t.shutdown = true)
    (hphase : t.phase = .waiting ∨ t.phase = .listening) :
    s.step (.notice i) = some (s.update i (.goto .ended)) := by
  simp [TcpService.step, ht, hphase, hshutdown]

theorem getElem?_update_self {f : ListenerTask → ListenerTask} (ht : s.tasks[i]? = some t) :
    (s.update i f).tasks[i]? = some (f t) :=
  getElem?_update.mpr ⟨t, ht, (if_pos rfl).symm⟩

theorem free_retry {addr : String} (hfree : s.free addr) : (s.update i .retry).free addr := by
  rw [free_iff] at hfree ⊢
  refine ⟨hfree.1, fun j u hu hlistening => ?_⟩
  obtain ⟨v, hv, rfl⟩ := getElem?_update.mp hu
  by_cases hij : i = j
  · rw [if_pos hij] at hlistening
    cases hlistening
  · rw [if_neg hij] at hlistening ⊢
    exact hfree.2 j v hv hlistening

theorem Ok.listens (h : s.Ok) (hport : s.listeners.lookup port = some i)
    (ht : s.tasks[i]? = some t) (hfree : t.phase = .listening ∨ s.free t.listen) :
    ∃ ls ∈ [[], [TcpLabel.bound i], [.wake i, .bound i]], ∃ s' u,
      Runs.run TcpService.step s ls = some s' ∧ s'.tasks[i]? = some u ∧ u.phase = .listening ∧
        u.listenPort = port := by
  obtain ⟨v, hv, htport⟩ := h.owned port i hport
  cases ht.symm.trans hv
  have huntold : t.shutdown = false := (h.untold_iff i t ht).mpr (htport ▸ hport)
  cases hphase : t.phase with
  | listening => exact ⟨[], by simp, s, t, rfl, ht, hphase, htport⟩
  | binding =>
    have hfree := hfree.resolve_left (by simp [hphase])
    exact ⟨[.bound i], by simp, _, _, run_single (step_bound ht hphase hfree),
      getElem?_update_self ht, rfl, htport⟩
  | waiting =>
    have hfree := hfree.resolve_left (by simp [hphase])
    have hretry := getElem?_update_self (f := .retry) ht
    have hbound := run_single (step_bound hretry rfl (free_retry hfree))
    refine ⟨[.wake i, .bound i], by simp, _, _, ?_,
      getElem?_update_self (f := .goto .listening) hretry, rfl, htport⟩
    rw [Runs.run_cons, step_wake ht hphase, Option.bind_some, hbound]
  | ended => exact absurd hphase (h.alive i t ht huntold)

theorem ends (ht : s.tasks[i]? = some t) (hshutdown : t.shutdown = true) :
    ∃ ls ∈ [[], [TcpLabel.notice i], [.refused i, .notice i]], ∃ s' u,
      Runs.run step s ls = some s' ∧ s'.tasks[i]? = some u ∧ u.phase = .ended := by
  cases hphase : t.phase with
  | ended => exact ⟨[], by simp, s, t, rfl, ht, hphase⟩
  | waiting =>
    exact ⟨[.notice i], by simp, _, _, run_single (step_notice ht hshutdown (.inl hphase)),
      getElem?_update_self ht, rfl⟩
  | listening =>
    exact ⟨[.notice i], by simp, _, _, run_single (step_notice ht hshutdown (.inr hphase)),
      getElem?_update_self ht, rfl⟩
  | binding =>
    have hrefused := getElem?_update_self (f := .goto .waiting) ht
    have hnotice := run_single (step_notice hrefused hshutdown (.inl rfl))
    refine ⟨[.refused i, .notice i], by simp, _, _, ?_,
      getElem?_update_self (f := .goto .ended) hrefused, rfl⟩
    rw [Runs.run_cons, step_refused ht hphase, Option.bind_some, hnotice]

/-- When the tasks have come to rest, just the ports of the table are listened on. -/
theorem Manages.settled (h : Manages seen s) (hok : s.Ok) (hphase : s.phase = .selecting)
    (hrest : ∀ t ∈ s.tasks, t.phase = if t.shutdown then .ended else .listening) :
    (∃ t ∈ s.tasks, t.phase = .listening ∧ t.listenPort = port) ↔ port ∈ seen.2 := by
  have hprogress := h.progress
  rw [hphase] at hprogress
  rw [← hprogress port, ← AList.lookup_isSome, Option.isSome_iff_exists]
  constructor
  · rintro ⟨t, ht, hlistening, rfl⟩
    obtain ⟨i, hi⟩ := List.getElem?_of_mem ht
    refine ⟨i, (hok.untold_iff i t hi).mp ?_⟩
    rw [hrest t ht] at hlistening
    by_contra hshutdown
    rw [if_pos (by simpa using hshutdown)] at hlistening
    cases hlistening
  · rintro ⟨i, hi⟩
    obtain ⟨t, ht, rfl⟩ := hok.owned port i hi
    have huntold := (hok.untold_iff i t ht).mpr hi
    refine ⟨t, List.mem_of_getElem? ht, ?_, rfl⟩
    rw [hrest t (List.mem_of_getElem? ht), huntold]
    rfl

/-- However the service, its tasks, updates of the table and other programs take turns: the service
has a handle of just the tasks that are not told to stop, these go on trying until they listen, no
two tasks listen on one address, and with each round the handles become those of the ports that were
read. A task whose address is free can listen, one that is told to stop can end, and when they have
done so just those ports are listened on. -/
theorem listeners_run {mode : TcpMode} {httpsFallbackAddr : Option String} {config : Config}
    {table : Table W} {ls : List (TcpLabel W)}
    (hr : Runs.run step (start mode httpsFallbackAddr config table) ls = some s) :
    s.Ok ∧ Manages (seenPorts table ls) s ∧
      (∀ port i t, s.listeners.lookup port = some i → s.tasks[i]? = some t →
        t.phase = .listening ∨ s.free t.listen →
        ∃ ls ∈ [[], [.bound i], [.wake i, .bound i]], ∃ s' u, Runs.run step s ls = some s' ∧
          s'.tasks[i]? = some u ∧ u.phase = .listening ∧ u.listenPort = port) ∧
      (∀ i t, s.tasks[i]? = some t → t.shutdown = true →
        ∃ ls ∈ [[], [.notice i], [.refused i, .notice i]], ∃ s' u,
          Runs.run step s ls = some s' ∧ s'.tasks[i]? = some u ∧ u.phase = .ended) ∧
      (s.phase = .selecting →
        (∀ t ∈ s.tasks, t.phase = if t.shutdown then .ended else .listening) →
        ∀ port, (∃ t ∈ s.tasks, t.phase = .listening ∧ t.listenPort = port) ↔
          port ∈ (seenPorts table ls).2) := by
  have hok : s.Ok := Runs.invariant (fun _ _ _ h hs => h.step hs) hr (ok_start _ _ _ _)
  have hmanages := manages_run (manages_start mode httpsFallbackAddr config table) hr
  refine ⟨hok, hmanages, ?_, ?_, ?_⟩
  · intro port i t hport ht hfree
    exact hok.listens hport ht hfree
  · intro i t ht hshutdown
    exact ends ht hshutdown
  · intro hphase hrest port
    exact hmanages.settled hok hphase hrest

section Example

attribute [local instance] Platform.plain

def sampleTcpLabels : List (TcpLabel ℚ) :=
  [.tick, .manage, .manage, .manage, .manage, .manage, .bound 0, .refused 1, .bound 2, .wake 1,
    .bound 1, .publish ((ManagedRouteTable.new none .empty).run twoAddrCalls).table, .tick,
    .visit 5433, .visit 5432, .visit 5434, .manage, .manage, .manage, .notice 1, .notice 2]

def sampleTcpService : TcpService ℚ :=
  start (.tcpDynamic (.fromSecs 5)) none sampleConfig
    ((ManagedRouteTable.new none .empty).run oddPortCalls).table

theorem listeners_run_sampleTcpLabels :
    ∃ s, Runs.run step sampleTcpService sampleTcpLabels = some s ∧
      ∀ port, (∃ t ∈ s.tasks, t.phase = .listening ∧ t.listenPort = port) ↔ port ∈ [5432] := by
  have hrun : (Runs.run step sampleTcpService sampleTcpLabels).map (fun s =>
      (s.tasks.map fun t => (t.phase, t.shutdown), s.phase)) =
        some ([(.listening, false), (.ended, true), (.ended, true)], .selecting) := by
    decide +kernel
  obtain ⟨s, hs, hstate⟩ := Option.map_eq_some_iff.mp hrun
  obtain ⟨htasks, hphase⟩ := Prod.mk.inj hstate
  have hseen : (seenPorts ((ManagedRouteTable.new none .empty).run oddPortCalls).table
      sampleTcpLabels).2 = [5432] := by
    decide +kernel
  refine ⟨s, hs, fun port => ?_⟩
  rw [← hseen]
  refine (listeners_run hs).2.2.2.2 hphase ?_ port
  intro t ht
  have hmem : (t.phase, t.shutdown) ∈ s.tasks.map fun t => (t.phase, t.shutdown) :=
    List.mem_map_of_mem ht
  rw [htasks] at hmem
  obtain h | h : (t.phase, t.shutdown) = (.listening, false) ∨
      (t.phase, t.shutdown) = (.ended, true) := by
    simpa using hmem
  all_goals
    obtain ⟨h, h'⟩ := Prod.mk.inj h
    rw [h, h']
    rfl

end Example

end TcpService

end SentirumLb.Tcp
