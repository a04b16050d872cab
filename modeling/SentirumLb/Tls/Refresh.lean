import SentirumLb.Consul.Client
import SentirumLb.Lib.Backoff
import SentirumLb.Tls.Startup

/-! # Watching the stores of certificates

The certificates of a listener and the CA certificates for its clients are
watched in Consul by two loops of the same kind. A loop asks for what is newer
than the index it has seen, applies every answer, and waits longer after each
failure in a row.
-/

namespace SentirumLb

open Consul Latest

structure KeyPoll where
  answer : Except String KvResponse
  now : ℕ → ℕ

inductive KeyWatchEvent where
  | ask (index : ℕ)
  | sleep (secs : ℕ)

structure Refresher (σ : Type) where
  store : σ
  lastIndex : ℕ
  backoffSecs : ℕ

namespace Refresher

variable {σ : Type}

def start (store : σ) (initialIndex : ℕ) : Refresher σ := ⟨store, initialIndex, 1⟩

variable [KvCodec] (apply : σ → FabioEntries → ℕ → (ℕ → ℕ) → σ) (certPrefix : String)

/-- One round of the loop: `refresh_from_consul`, and the wait after an error. -/
def round (s : Refresher σ) (p : KeyPoll) : Refresher σ × List KeyWatchEvent :=
  match watchKvBasenames certPrefix p.answer with
  | .ok (entries, newIndex) =>
      (⟨apply s.store entries newIndex p.now, newIndex, 1⟩, [.ask s.lastIndex])
  | .error _ =>
      ({ s with backoffSecs := min (s.backoffSecs * 2) 60 },
        [.ask s.lastIndex, .sleep s.backoffSecs])

def run (s : Refresher σ) (polls : List KeyPoll) : Refresher σ :=
  polls.foldl (fun s p => (s.round apply certPrefix p).1) s

def brings (p : KeyPoll) : Option (FabioEntries × ℕ) :=
  (watchKvBasenames certPrefix p.answer).toOption

def applied (polls : List KeyPoll) : List (FabioEntries × ℕ × (ℕ → ℕ)) :=
  polls.filterMap fun p => (brings certPrefix p).map fun (entries, newIndex) =>
    (entries, newIndex, p.now)

def outcomes (polls : List KeyPoll) : List Bool :=
  polls.map fun p => (brings certPrefix p).isSome

def eventsOf (polls : List KeyPoll) (index : ℕ) (p : KeyPoll) : List KeyWatchEvent :=
  if (brings certPrefix p).isSome then [.ask index]
  else [.ask index, .sleep (Backoff.wait 60 (Backoff.failures (outcomes certPrefix polls)))]

variable {apply certPrefix}

theorem round_of_brings {s : Refresher σ} {p : KeyPoll} {entries : FabioEntries} {newIndex : ℕ}
    (h : brings certPrefix p = some (entries, newIndex)) : s.round apply certPrefix p =
      (⟨apply s.store entries newIndex p.now, newIndex, 1⟩, [.ask s.lastIndex]) := by
  unfold brings at h
  unfold round
  cases hanswer : watchKvBasenames certPrefix p.answer with
  | error e => simp [hanswer, Except.toOption] at h
  | ok answered =>
    rw [hanswer] at h
    cases h
    rfl

theorem round_of_brings_eq_none {s : Refresher σ} {p : KeyPoll} (h : brings certPrefix p = none) :
    s.round apply certPrefix p = ({ s with backoffSecs := Backoff.next 60 s.backoffSecs },
      [.ask s.lastIndex, .sleep s.backoffSecs]) := by
  unfold brings at h
  unfold round
  cases hanswer : watchKvBasenames certPrefix p.answer with
  | error e => rfl
  | ok answered => simp [hanswer, Except.toOption] at h

/-- After any answers, those that could be read are applied in order, the index is that of the last
of them, and the wait depends on the failures since. -/
theorem run_start (store : σ) (initialIndex : ℕ) (polls : List KeyPoll) :
    (start store initialIndex).run apply certPrefix polls =
      { store := (applied certPrefix polls).foldl (fun s r => apply s r.1 r.2.1 r.2.2) store
        lastIndex := latest (fun p => (brings certPrefix p).map (·.2)) initialIndex polls
        backoffSecs := Backoff.wait 60 (Backoff.failures (outcomes certPrefix polls)) } := by
  induction polls using List.reverseRecOn with
  | nil => rfl
  | append_singleton polls p ih =>
    have hrun : (start store initialIndex).run apply certPrefix (polls ++ [p]) =
        (((start store initialIndex).run apply certPrefix polls).round apply certPrefix p).1 :=
      List.foldl_concat ..
    have happlied : applied certPrefix (polls ++ [p]) = applied certPrefix polls ++
        ((brings certPrefix p).map fun (entries, newIndex) =>
          (entries, newIndex, p.now)).toList := by
      rw [applied, List.filterMap_append, ← applied]
      cases hbrings : brings certPrefix p <;> simp [hbrings]
    have houtcomes : outcomes certPrefix (polls ++ [p]) =
        outcomes certPrefix polls ++ [(brings certPrefix p).isSome] := List.map_append
    rw [hrun, ih, happlied, houtcomes, latest_concat, Backoff.failures_concat, List.foldl_append]
    cases hbrings : brings certPrefix p with
    | none =>
      rw [round_of_brings_eq_none hbrings]
      simp [Backoff.next_wait]
    | some answered =>
      rw [round_of_brings hbrings]
      simp [Backoff.wait_zero]

theorem events_round (store : σ) (initialIndex : ℕ) (polls : List KeyPoll) (p : KeyPoll) :
    (((start store initialIndex).run apply certPrefix polls).round apply certPrefix p).2 =
      eventsOf certPrefix polls ((start store initialIndex).run apply certPrefix polls).lastIndex
        p := by
  unfold eventsOf
  cases hbrings : brings certPrefix p with
  | none =>
    rw [round_of_brings_eq_none hbrings, run_start]
    rfl
  | some answered =>
    rw [round_of_brings hbrings]
    rfl

end Refresher

/-! ## The two services -/

open DynamicCertStore (ConsulReload)

section Services

variable {X K : Type} [KvCodec]

def ConsulTlsBackgroundService.run [Openssl X K] (tlsStore : DynamicCertStore (CertParts X K))
    (certPrefix : String) (initialIndex : ℕ) (polls : List KeyPoll) :
    Refresher (DynamicCertStore (CertParts X K)) :=
  (Refresher.start tlsStore initialIndex).run DynamicCertStore.applyConsulSnapshot certPrefix polls

def applyClientCas [OpensslStores X] (clientCaStore : DynamicClientCaStore X)
    (entries : FabioEntries) (consulIndex : ℕ) (now : ℕ → ℕ) : DynamicClientCaStore X :=
  clientCaStore.applySnapshot entries consulIndex (now 0)

def ConsulClientCaBackgroundService.run [OpensslStores X] (clientCaStore : DynamicClientCaStore X)
    (certPrefix : String) (initialIndex : ℕ) (polls : List KeyPoll) :
    Refresher (DynamicClientCaStore X) :=
  (Refresher.start clientCaStore initialIndex).run applyClientCas certPrefix polls

def certReloadsOf (certPrefix : String) (polls : List KeyPoll) : List ConsulReload :=
  (Refresher.applied certPrefix polls).map fun (entries, consulIndex, now) =>
    ⟨entries, consulIndex, now⟩

def caReloadsOf (certPrefix : String) (polls : List KeyPoll) : List CaReload :=
  (Refresher.applied certPrefix polls).map fun (entries, consulIndex, now) =>
    ⟨entries, consulIndex, now 0⟩

omit [KvCodec] in
theorem lastConsulIndex_applyReloads [Openssl X K] (s : DynamicCertStore (CertParts X K))
    (reloads : List ConsulReload) : (s.applyReloads reloads).status.lastConsulIndex =
      latest (fun r : ConsulReload => some r.consulIndex) s.status.lastConsulIndex reloads := by
  induction reloads using List.reverseRecOn with
  | nil => rfl
  | append_singleton reloads r ih =>
    have hconcat : s.applyReloads (reloads ++ [r]) =
        (s.applyReloads reloads).applyConsulSnapshot r.entries r.consulIndex r.now :=
      List.foldl_concat ..
    rw [hconcat, DynamicCertStore.lastConsulIndex_applyConsulSnapshot, latest_concat]
    rfl

theorem latest_applied (certPrefix : String) (polls : List KeyPoll) (first : ℕ) :
    latest (fun r : FabioEntries × ℕ × (ℕ → ℕ) => some r.2.1) first
        (Refresher.applied certPrefix polls) =
      latest (fun p => (Refresher.brings certPrefix p).map (·.2)) first polls := by
  rw [Refresher.applied, latest_filterMap]
  congr 1
  funext p
  cases Refresher.brings certPrefix p <;> rfl

/-- Both services start with a store that some snapshots were applied to and go on from the index
of the last one. Whatever is answered, the stores then hold what they hold after those snapshots and
the ones that could be read since, a service asks for what is newer than the index that its store
shows, and after a failure it waits, twice as long for each failure in a row and a minute at
most. -/
theorem background_services_run [Openssl X K] [OpensslStores X] (caUpgradeCn : String)
    (strictSni : Bool) (caLoads : List CaReload) (certLoads : List ConsulReload)
    (certPrefix : String) (polls : List KeyPoll) (p : KeyPoll) :
    let cas := ConsulClientCaBackgroundService.run
      ((DynamicClientCaStore.new caUpgradeCn : DynamicClientCaStore X).applySnapshots caLoads)
      certPrefix (latest (fun r : CaReload => some r.consulIndex) 0 caLoads) polls
    let certs := ConsulTlsBackgroundService.run
      ((DynamicCertStore.new strictSni : DynamicCertStore (CertParts X K)).applyReloads certLoads)
      certPrefix (latest (fun r : ConsulReload => some r.consulIndex) 0 certLoads) polls
    cas.store.Tracks (caLoads ++ caReloadsOf certPrefix polls) ∧
      certs.store = (DynamicCertStore.new strictSni).applyReloads
        (certLoads ++ certReloadsOf certPrefix polls) ∧
      (cas.round applyClientCas certPrefix p).2 =
        Refresher.eventsOf certPrefix polls cas.store.status.lastConsulIndex p ∧
      (certs.round DynamicCertStore.applyConsulSnapshot certPrefix p).2 =
        Refresher.eventsOf certPrefix polls certs.store.status.lastConsulIndex p := by
  intro cas certs
  have hcas : cas.store = (DynamicClientCaStore.new caUpgradeCn).applySnapshots
      (caLoads ++ caReloadsOf certPrefix polls) := by
    unfold cas ConsulClientCaBackgroundService.run
    rw [Refresher.run_start, DynamicClientCaStore.applySnapshots_append]
    dsimp only
    rw [caReloadsOf, DynamicClientCaStore.applySnapshots, DynamicClientCaStore.applySnapshots,
      List.foldl_map]
    rfl
  have hcerts : certs.store = (DynamicCertStore.new strictSni).applyReloads
      (certLoads ++ certReloadsOf certPrefix polls) := by
    unfold certs ConsulTlsBackgroundService.run
    rw [Refresher.run_start, DynamicCertStore.applyReloads, DynamicCertStore.applyReloads,
      List.foldl_append, certReloadsOf, List.foldl_map]
  have htracks : cas.store.Tracks (caLoads ++ caReloadsOf certPrefix polls) := by
    rw [hcas]
    exact DynamicClientCaStore.tracks_new caUpgradeCn _
  refine ⟨htracks, hcerts, ?_, ?_⟩
  · rw [htracks.lastConsulIndex, latest_append, caReloadsOf, latest_map, latest_applied]
    unfold cas ConsulClientCaBackgroundService.run
    rw [Refresher.events_round, Refresher.run_start]
  · rw [hcerts, lastConsulIndex_applyReloads, latest_append, certReloadsOf, latest_map,
      latest_applied]
    unfold certs ConsulTlsBackgroundService.run
    rw [Refresher.events_round, Refresher.run_start]
    rfl

end Services

end SentirumLb
