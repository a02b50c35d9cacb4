import Cfgms.Expiring.Order
import Cfgms.Steward.Handler

/-! # Replays at a steward

The replay cache forgets a command after the replay window, and the nonce cache forgets an
envelope after a day. Neither can be used again where its own dates end earlier than that.
-/

namespace Cfgms.Steward

open Expiring Go Operator List Transducer

variable {S : Type*} (h : Handler)

namespace Handler

/-- The command that is handed to the replay cache, with the time. -/
def replayCall (d : Delivery S) : Option (String × ℤ) :=
  match d.signed with
  | none => none
  | some signed =>
    match h.authenticate d signed with
    | .error _ => none
    | .ok () => some (signed.command.id, d.clock.recorded)

def commands : Transducer Caches (Delivery S) Reply := ⟨h.handleCommand⟩

theorem handleCommand_replayCache (s : Caches) (d : Delivery S) :
    (Cache.calls maxReplayCacheEntries h.replayWindow).step s.replayCache (h.replayCall d) =
      ((h.handleCommand s d).1.replayCache, (h.handleCommand s d).2.recorded) := by
  unfold replayCall handleCommand
  cases d.signed with
  | none => rfl
  | some signed =>
    dsimp only
    cases h.authenticate d signed with
    | error err => rfl
    | ok u =>
      simp only [Cache.calls]
      split <;> rfl

theorem authenticate_fresh {d : Delivery S} {signed : SignedCommand S}
    (hok : h.authenticate d signed = .ok ()) :
    d.clock.aged - signed.command.timestamp ≤ h.replayWindow := by
  have haddressee : authenticate.checkAddressee h d signed.command = .ok () := by
    unfold authenticate at hok
    grind
  unfold authenticate.checkAddressee at haddressee
  grind

theorem handleCommand_dispatched {s : Caches} {d : Delivery S}
    (hdispatched : (h.handleCommand s d).2.refusal = none) :
    ∃ signed, d.signed = some signed ∧
      (h.handleCommand s d).2.recorded = some (signed.command.id, d.clock.recorded) ∧
      d.clock.aged - signed.command.timestamp ≤ h.replayWindow := by
  unfold handleCommand at hdispatched ⊢
  cases hsigned : d.signed with
  | none => simp [hsigned] at hdispatched
  | some signed =>
    simp only [hsigned] at hdispatched ⊢
    cases hauth : h.authenticate d signed with
    | error err => simp [hauth] at hdispatched
    | ok u =>
      simp only [hauth] at hdispatched ⊢
      split at hdispatched
      · next hfirst =>
        rw [if_pos hfirst]
        exact ⟨signed, rfl, rfl, h.authenticate_fresh hauth⟩
      · cases hdispatched

end Handler

/-- The time between the two readings of the clock that a command is held against. -/
def Clock.pause (c : Clock) : ℤ := c.recorded - c.aged

def SameID (d e : Delivery S) : Prop :=
  ∃ c ∈ d.signed, ∃ c' ∈ e.signed, c.command.id = c'.command.id

/-- If the later delivery repeats an ID, its command is dated before the earlier one. -/
def DatedBefore (d e : Delivery S) : Prop :=
  ∀ c ∈ d.signed, ∀ c' ∈ e.signed, c.command.id = c'.command.id →
    c'.command.timestamp + e.clock.pause < d.clock.recorded

/-- Two deliveries of one ID are not both dispatched. -/
def DispatchedOnce (a b : Delivery S × Handler.Reply) : Prop :=
  SameID a.1 b.1 → a.2.refusal = none → b.2.refusal ≠ none

/-- One delivery is over before the next one comes. -/
def InTurn (d e : Delivery S) : Prop := d.clock.nonced ≤ e.clock.aged

theorem replayCalls_sorted {ds : List (Delivery S)} (hturn : ds.Pairwise InTurn) :
    (ds.map h.replayCall).Pairwise fun a b => ∀ x ∈ a, ∀ y ∈ b, x.2 ≤ y.2 := by
  have htime : ∀ (d : Delivery S), ∀ x ∈ h.replayCall d, x.2 = d.clock.recorded := by
    intro d x hx
    unfold Handler.replayCall at hx
    grind
  rw [pairwise_map]
  refine hturn.imp fun {d e} hde x hx y hy => ?_
  rw [htime d x hx, htime e y hy]
  have hd := d.clock.recorded_le
  have hd' := d.clock.expiry_le
  have he := e.clock.aged_le
  unfold InTurn at hde
  omega

theorem command_dispatched_once {ds : List (Delivery S)} (hturn : ds.Pairwise InTurn)
    (hload : Cache.Uncrowded maxReplayCacheEntries h.replayWindow
      ((h.commands.log .empty ds).map fun a => a.2.recorded))
    (hdated : ds.Pairwise DatedBefore) :
    (h.commands.log .empty ds).Pairwise DispatchedOnce := by
  have houtputs := h.commands.outputs_of_log (Cache.calls maxReplayCacheEntries h.replayWindow)
    (g := fun a => a.2.recorded) h.handleCommand_replayCache Caches.empty ds
  rw [← houtputs] at hload
  have hapart := Cache.calls_apart_of_uncrowded (replayCalls_sorted h hturn) hload
  change ((Cache.calls maxReplayCacheEntries h.replayWindow).outputs Caches.empty.replayCache
    (ds.map h.replayCall)).Pairwise _ at hapart
  rw [houtputs, pairwise_map] at hapart
  rw [← h.commands.map_fst_log .empty ds, pairwise_map] at hdated
  refine List.Pairwise.imp_of_mem ?_ (hapart.and hdated)
  rintro a b ha hb ⟨hab, hdate⟩ hid hfirst hsecond
  obtain ⟨s, hs⟩ := h.commands.mem_log ha
  obtain ⟨s', hs'⟩ := h.commands.mem_log hb
  rw [hs] at hab hfirst
  rw [hs'] at hab hsecond
  obtain ⟨c, hc, hrec, -⟩ := h.handleCommand_dispatched hfirst
  obtain ⟨c', hc', hrec', hfresh⟩ := h.handleCommand_dispatched hsecond
  obtain ⟨d, hd, d', hd', hsame⟩ := hid
  rw [hc] at hd
  rw [hc'] at hd'
  obtain rfl := Option.mem_some_iff.mp hd
  obtain rfl := Option.mem_some_iff.mp hd'
  have hwindow := hab _ hrec _ hrec' hsame
  have hearly := hdate c hc c' hc' hsame
  unfold Clock.pause at hearly
  omega

def newYear : ℤ := 1767225600000000000

def plainHandler : Handler := Handler.new {
  locked := false
  stewardID := "steward-1"
  replayWindow := 0
  maxParamsBytes := 0
  requireSignedAdhoc := true
  marshaledLength := fun _ => some 0
  decodeBase64 := fun _ => some []
  parseRFC3339 := fun s => if s = "2026-01-03T00:00:00Z" then some (newYear + 48 * hour) else none }

/-- A signed command of a given date, delivered at a given time, both counted from new year. -/
def delivery (timestamp now : ℤ) : Delivery Unit where
  signed := some {
    command := {
      id := "cmd-1"
      type := .other "sync_config"
      stewardID := "steward-1"
      timestamp := newYear + timestamp
      params := StringMap.empty
      term := 0
      signingPayloadVersion := 2 }
    signature := some ()
    rawParams := none }
  trust := ⟨some fun _ => none, fun _ _ _ => none, fun _ _ => none⟩
  clock := ⟨newYear + now, newYear + now, newYear + now, newYear + now, le_rfl, le_rfl, le_rfl⟩

theorem command_dispatched_once_repeated :
    ((plainHandler.commands.log .empty [delivery 0 minute, delivery 0 (2 * minute)]).map
        fun a => a.2.refusal) = [none, some .duplicate] ∧
      (plainHandler.commands.log .empty [delivery 0 minute, delivery 0 (2 * minute)]).Pairwise
        DispatchedOnce := by
  refine ⟨by decide +kernel, command_dispatched_once plainHandler ?_ ?_ ?_⟩
  · simp [InTurn, delivery, minute]
  · exact Cache.uncrowded_of_length_lt (by decide +kernel)
  · simp [DatedBefore, delivery, minute, Clock.pause]

/-- A command dated an hour ahead is dispatched again once the cache has forgotten it. -/
theorem future_dated_command_dispatched_twice :
    [delivery hour 0, delivery hour (6 * minute)].Pairwise InTurn ∧
      Cache.Uncrowded maxReplayCacheEntries plainHandler.replayWindow
        ((plainHandler.commands.log .empty [delivery hour 0, delivery hour (6 * minute)]).map
          fun a => a.2.recorded) ∧
      (delivery hour 0).signed = (delivery hour (6 * minute)).signed ∧
      ((plainHandler.commands.log .empty [delivery hour 0, delivery hour (6 * minute)]).map
        fun a => a.2.refusal) = [none, none] ∧
      ¬ (plainHandler.commands.log .empty
        [delivery hour 0, delivery hour (6 * minute)]).Pairwise DispatchedOnce := by
  refine ⟨?_, Cache.uncrowded_of_length_lt (by decide +kernel), rfl,
    (fun htwice => ⟨htwice, fun honce => ?_⟩) (by decide +kernel)⟩
  · simp [InTurn, delivery, minute]
  · simp only [log_cons, log_nil, map_cons, map_nil, List.cons.injEq, and_true] at htwice
    simp only [log_cons, log_nil, pairwise_cons, mem_singleton, forall_eq] at honce
    exact honce.1 ⟨_, rfl, _, rfl, rfl⟩ htwice.1 htwice.2

namespace Handler

/-- The nonce that is handed to the nonce cache, with the time. -/
def nonceCall (v : Verification) : Option (String × ℤ) :=
  match h.boundEnvelope v with
  | .error _ => none
  | .ok e => some (e.nonce, v.nonced)

/-- The nonce cache over a sequence of verifications. -/
def verifications : Transducer (Cache String) Verification (Option CommandError) :=
  ⟨h.verifyOperatorEnvelope⟩

theorem verifyOperatorEnvelope_cache (c : Cache String) (v : Verification) :
    (Cache.calls maxReplayCacheEntries envelopeNonceCacheTTL).step c (h.nonceCall v) =
      ((h.verifyOperatorEnvelope c v).1,
        if (h.verifyOperatorEnvelope c v).2 = none then h.nonceCall v else none) := by
  unfold nonceCall verifyOperatorEnvelope
  cases h.boundEnvelope v with
  | error err => simp [Cache.calls]
  | ok e =>
    simp only [Cache.calls]
    split <;> simp_all

theorem boundEnvelope_eq_ok {v : Verification} {e : Envelope} (hok : h.boundEnvelope v = .ok e) :
    e.nonce = v.command.stringParam "nonce" ∧
      ∃ t, h.parseRFC3339 (v.command.stringParam "expires_at") = some t ∧ v.expiry ≤ t := by
  unfold boundEnvelope at hok
  split at hok
  · cases henv : h.envelope v.command v.content v.shell with
    | error err => simp [henv] at hok
    | ok e' =>
      have he : e' = e ∧ v.expiry ≤ e'.expiresAt := by grind
      obtain ⟨rfl, hexpiry⟩ := he
      unfold envelope at henv
      cases hparse : h.parseRFC3339 (v.command.stringParam "expires_at") with
      | none => simp [hparse] at henv
      | some t =>
        simp only [hparse] at henv
        obtain ⟨context, -, henv⟩ := Fallible.bind_eq_ok.mp henv
        cases henv
        exact ⟨rfl, t, rfl, hexpiry⟩
  · cases hok

theorem verifyOperatorEnvelope_ok {c : Cache String} {v : Verification}
    (hok : (h.verifyOperatorEnvelope c v).2 = none) :
    h.nonceCall v = some (v.command.stringParam "nonce", v.nonced) ∧
      ∃ t, h.parseRFC3339 (v.command.stringParam "expires_at") = some t ∧ v.expiry ≤ t := by
  unfold verifyOperatorEnvelope at hok
  cases hbound : h.boundEnvelope v with
  | error err => simp [hbound] at hok
  | ok e =>
    obtain ⟨hnonce, hexpiry⟩ := h.boundEnvelope_eq_ok hbound
    rw [nonceCall, hbound, ← hnonce]
    exact ⟨rfl, hexpiry⟩

end Handler

open Handler

def SameNonce (v w : Verification) : Prop :=
  v.command.stringParam "nonce" = w.command.stringParam "nonce"

/-- If the later envelope repeats a nonce, it expires before the earlier one is forgotten. -/
def ExpiresInTime (v w : Verification) : Prop :=
  SameNonce v w → ∀ t, h.parseRFC3339 (w.command.stringParam "expires_at") = some t →
    t + (w.nonced - w.expiry) < v.nonced + envelopeNonceCacheTTL

/-- Two envelopes with one nonce are not both accepted. -/
def AcceptedOnce (a b : Verification × Option CommandError) : Prop :=
  SameNonce a.1 b.1 → a.2 = none → b.2 ≠ none

theorem nonceCalls_sorted {vs : List Verification}
    (hturn : vs.Pairwise fun v w => v.nonced ≤ w.expiry) :
    (vs.map h.nonceCall).Pairwise fun a b => ∀ x ∈ a, ∀ y ∈ b, x.2 ≤ y.2 := by
  have htime : ∀ v, ∀ x ∈ h.nonceCall v, x.2 = v.nonced := by
    intro v x hx
    unfold nonceCall at hx
    grind
  rw [pairwise_map]
  refine hturn.imp fun {v w} hvw x hx y hy => ?_
  rw [htime v x hx, htime w y hy]
  exact hvw.trans w.expiry_le

theorem operator_nonce_accepted_once {vs : List Verification}
    (hturn : vs.Pairwise fun v w => v.nonced ≤ w.expiry)
    (hheld : h.verifications.Along (fun c _ => c.entries.rows.length < maxReplayCacheEntries)
      Cache.empty vs)
    (hexpires : vs.Pairwise (ExpiresInTime h)) :
    (h.verifications.log Cache.empty vs).Pairwise AcceptedOnce := by
  have houtputs := h.verifications.outputs_of_log
    (Cache.calls maxReplayCacheEntries envelopeNonceCacheTTL)
    (g := fun a => if a.2 = none then h.nonceCall a.1 else none) h.verifyOperatorEnvelope_cache
    Cache.empty vs
  have hroom : (Cache.calls maxReplayCacheEntries envelopeNonceCacheTTL).Along
      (Cache.HasRoom maxReplayCacheEntries envelopeNonceCacheTTL) Cache.empty
      (vs.map h.nonceCall) := by
    refine along_map (T := h.verifications) (r := id) ?_ ?_ hheld
    · exact fun c v => congrArg Prod.fst (h.verifyOperatorEnvelope_cache c v)
    · exact fun c v hlt => Cache.hasRoom_of_length_lt hlt
  have hapart := Cache.calls_apart (nonceCalls_sorted h hturn) hroom
  rw [houtputs, pairwise_map] at hapart
  rw [← h.verifications.map_fst_log Cache.empty vs, pairwise_map] at hexpires
  refine List.Pairwise.imp_of_mem ?_ (hapart.and hexpires)
  rintro a b ha hb ⟨hab, htime⟩ hnonce hfirst hsecond
  obtain ⟨c, hc⟩ := h.verifications.mem_log ha
  obtain ⟨c', hc'⟩ := h.verifications.mem_log hb
  rw [if_pos hfirst, if_pos hsecond] at hab
  rw [hc] at hfirst
  rw [hc'] at hsecond
  obtain ⟨hcall, -⟩ := h.verifyOperatorEnvelope_ok hfirst
  obtain ⟨hcall', t, ht, hexpiry⟩ := h.verifyOperatorEnvelope_ok hsecond
  have hretained := hab _ hcall _ hcall' hnonce
  have hearly := htime hnonce t ht
  omega

/-- The verification, at a given time counted from new year, of an envelope that is valid for
the first two days. -/
def verification (now : ℤ) : Verification where
  command := {
    id := "cmd-1"
    type := .executeScript
    stewardID := "steward-1"
    timestamp := newYear + now
    params := ⟨[("signature_algorithm", .text "rsa-sha256"), ("signature_value", .text "c2ln"),
      ("signature_public_key", .text "cGVt"), ("targets", .texts ["steward-1"]),
      ("nonce", .text "nonce-1"), ("expires_at", .text "2026-01-03T00:00:00Z")], by decide⟩
    term := 0
    signingPayloadVersion := 2 }
  content := [108, 115]
  shell := "bash"
  credential := fun _ => none
  expiry := newYear + now
  nonced := newYear + now
  expiry_le := le_rfl

theorem operator_nonce_accepted_once_repeated :
    ((plainHandler.verifications.log Cache.empty
        [verification (30 * hour), verification (40 * hour)]).map Prod.snd) =
        [none, some (.unauthenticated "operator envelope nonce already used")] ∧
      (plainHandler.verifications.log Cache.empty
        [verification (30 * hour), verification (40 * hour)]).Pairwise AcceptedOnce := by
  refine ⟨by decide +kernel, operator_nonce_accepted_once plainHandler ?_ ?_ ?_⟩
  · simp [verification, hour, minute]
  · exact ⟨by decide +kernel, by decide +kernel, trivial⟩
  · simp only [pairwise_cons, mem_singleton, forall_eq]
    refine ⟨fun _ t ht => ?_, by simp⟩
    have hparse : plainHandler.parseRFC3339 "2026-01-03T00:00:00Z" = some (newYear + 48 * hour) := rfl
    cases hparse.symm.trans ht
    decide

/-- An envelope that is valid for two days is accepted again on the second day. -/
theorem long_lived_envelope_accepted_twice :
    [verification 0, verification (25 * hour)].Pairwise (fun v w => v.nonced ≤ w.expiry) ∧
      plainHandler.verifications.Along (fun c _ => c.entries.rows.length < maxReplayCacheEntries)
        Cache.empty [verification 0, verification (25 * hour)] ∧
      (plainHandler.verifications.log Cache.empty
        [verification 0, verification (25 * hour)]).map Prod.snd = [none, none] ∧
      ¬ (plainHandler.verifications.log Cache.empty
        [verification 0, verification (25 * hour)]).Pairwise AcceptedOnce := by
  refine ⟨?_, ⟨by decide +kernel, by decide +kernel, trivial⟩,
    (fun htwice => ⟨htwice, fun honce => ?_⟩) (by decide +kernel)⟩
  · simp [verification, hour, minute]
  · simp only [log_cons, log_nil, map_cons, map_nil, List.cons.injEq, and_true] at htwice
    simp only [log_cons, log_nil, pairwise_cons, mem_singleton, forall_eq] at honce
    exact honce.1 rfl htwice.1 htwice.2

/-- The cache after calls of `Add`, each with its time. -/
def replayCacheAfter (ttl : ℤ) (adds : List (String × ℤ)) : Cache String :=
  (Cache.calls maxReplayCacheEntries ttl).final .empty (adds.map some)

def acceptedIDs (ttl : ℤ) (adds : List (String × ℤ)) : List (String × ℤ) :=
  ((Cache.calls maxReplayCacheEntries ttl).outputs .empty (adds.map some)).reduceOption

/-- If no ID is added again when its entry is exactly as old as the TTL, then the order lists each
entry once, by time, at the cap the oldest entry goes, and an ID is refused exactly if it was last
accepted within the TTL and with fewer than 10,000 others after it. -/
theorem replayCache_exact {ttl now : ℤ} {adds : List (String × ℤ)}
    (hsorted : adds.Pairwise (·.2 ≤ ·.2)) (hnow : ∀ e ∈ adds, e.2 ≤ now)
    (hoff : (Cache.calls maxReplayCacheEntries ttl).Along (Cache.OffRetention ttl) .empty
      (adds.map some)) :
    let c := replayCacheAfter ttl adds
    let swept := (c.evictExpired (now - ttl)).entries.rows
    c.InOrder ∧ c.entries.rows.length ≤ maxReplayCacheEntries ∧ ∀ id,
      (∀ e ∈ swept, e.1 ≠ id → e ∉ (c.add maxReplayCacheEntries ttl id now).1.entries.rows →
        swept.length = maxReplayCacheEntries ∧ ∀ d ∈ swept, e.2 ≤ d.2) ∧
      ((c.add maxReplayCacheEntries ttl id now).2 = false ↔ ∃ before t after,
        acceptedIDs ttl adds = before ++ (id, t) :: after ∧ id ∉ after.map Prod.fst ∧
          now - t < ttl ∧ after.length < maxReplayCacheEntries) := by
  have hcap : 0 < maxReplayCacheEntries := by decide
  obtain ⟨lost, h⟩ := Cache.exists_queued hcap hsorted hoff hnow
  refine ⟨h.inOrder, h.bound, fun id => ⟨?_, ?_⟩⟩
  · exact fun e he hkey hgone => h.oldest_of_not_mem hcap he hkey hgone
  · exact h.add_eq_false_iff

theorem replayCache_exact_twoIDs :
    ((replayCacheAfter 60 [("a", 0), ("b", 10)]).add maxReplayCacheEntries 60 "a" 20).2 = false :=
  ((@replayCache_exact 60 20 [("a", 0), ("b", 10)] (by simp) (by simp)
    ⟨by rintro _ ⟨⟩; decide, by rintro _ ⟨⟩; decide, trivial⟩).2.2 "a").2.mpr
    ⟨[], 0, [("b", 10)], by decide +kernel, by simp, by decide, by decide⟩

/-- An ID that is added again at the age of the TTL is listed twice. -/
theorem replayCache_listsTwice : ¬ (replayCacheAfter 60 [("a", 0), ("a", 60)]).InOrder := by
  rintro ⟨horder, -⟩
  exact absurd horder (by decide +kernel)

end Cfgms.Steward
