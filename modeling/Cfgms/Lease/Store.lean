import Cfgms.Machine.Runs
import Mathlib

/-! # The PostgreSQL lease store

One row per lease name. `AcquireOrRenew` is a single `INSERT .. ON CONFLICT DO UPDATE`
and `Release` a single `UPDATE`; every `now()` in one statement is one reading of the
server's clock, so each call is a function of the table and that reading.
-/

namespace Cfgms.Lease

open Function

/-- The largest value of the `BIGINT` column `token`. -/
def maxToken : ℕ := 2 ^ 63 - 1

theorem one_le_maxToken : 1 ≤ maxToken := by decide

/-- A row of `cfgms_leases`. Times are readings of the store's own clock. -/
structure LeaseRow where
  holderID : String
  token : ℕ
  expiresAt : ℤ
  token_le : token ≤ maxToken
  deriving DecidableEq

structure LeaseState where
  name : String
  holderID : String
  token : ℕ
  expiresAt : ℤ
  valid : Bool
  acquired : Bool
  deriving DecidableEq

abbrev LeaseTable := String → Option LeaseRow

namespace LeaseRow

/-- The condition of the `CASE` that keeps the token. -/
def Renews (r : LeaseRow) (holderID : String) (now : ℤ) : Prop :=
  r.holderID = holderID ∧ now ≤ r.expiresAt

/-- The `WHERE` clause that lets the update branch apply. -/
def Claimable (r : LeaseRow) (holderID : String) (now : ℤ) : Prop :=
  r.expiresAt < now ∨ r.holderID = holderID

instance (r : LeaseRow) (holderID : String) (now : ℤ) : Decidable (r.Renews holderID now) :=
  inferInstanceAs (Decidable (_ ∧ _))

instance (r : LeaseRow) (holderID : String) (now : ℤ) : Decidable (r.Claimable holderID now) :=
  inferInstanceAs (Decidable (_ ∨ _))

def toState (r : LeaseRow) (name : String) (now : ℤ) (acquired : Bool) : LeaseState where
  name := name
  holderID := r.holderID
  token := r.token
  expiresAt := r.expiresAt
  valid := decide (now < r.expiresAt)
  acquired := acquired

end LeaseRow

def getLease (now : ℤ) (t : LeaseTable) (name : String) : Except String LeaseState :=
  match t name with
  | none => .error "lease not found"
  | some r => .ok (r.toState name now false)

def acquireOrRenew (now ttl : ℤ) (t : LeaseTable) (name holderID : String) :
    LeaseTable × Except String LeaseState :=
  if name = "" then (t, .error "database: lease name cannot be empty")
  else if holderID = "" then (t, .error "database: holder id cannot be empty")
  else
    match t name with
    | none =>
      let row : LeaseRow := ⟨holderID, 1, now + ttl, one_le_maxToken⟩
      (update t name (some row), .ok (row.toState name now true))
    | some r =>
      if r.Claimable holderID now then
        let token := if r.Renews holderID now then r.token else r.token + 1
        if h : token ≤ maxToken then
          let row : LeaseRow := ⟨holderID, token, now + ttl, h⟩
          (update t name (some row), .ok (row.toState name now true))
        else (t, .error ("failed to acquire or renew lease " ++ name.quote ++
          ": bigint out of range"))
      else (t, getLease now t name)

def release (t : LeaseTable) (name holderID : String) (token : ℕ) : LeaseTable :=
  match t name with
  | none => t
  | some r =>
    if r.holderID = holderID ∧ r.token = token then
      -- the row is force-expired to the epoch and keeps its token
      update t name (some { r with expiresAt := 0 })
    else t

/-- Everything a call of `AcquireOrRenew` can do to the table and answer. -/
inductive Outcome (now ttl : ℤ) (t : LeaseTable) (name holderID : String) :
    LeaseTable → Except String LeaseState → Prop where
  | refused (e : String) : Outcome now ttl t name holderID t (.error e)
  | created (row : LeaseRow) : t name = none → row.holderID = holderID → row.token = 1 →
      row.expiresAt = now + ttl →
      Outcome now ttl t name holderID (update t name (some row))
        (.ok (row.toState name now true))
  | renewed (r row : LeaseRow) : t name = some r → r.Renews holderID now →
      row.holderID = holderID → row.token = r.token → row.expiresAt = now + ttl →
      Outcome now ttl t name holderID (update t name (some row))
        (.ok (row.toState name now true))
  | claimed (r row : LeaseRow) : t name = some r → r.expiresAt < now →
      row.holderID = holderID → row.token = r.token + 1 → row.expiresAt = now + ttl →
      Outcome now ttl t name holderID (update t name (some row))
        (.ok (row.toState name now true))
  | contended (r : LeaseRow) : t name = some r → r.holderID ≠ holderID → now ≤ r.expiresAt →
      Outcome now ttl t name holderID t (.ok (r.toState name now false))

theorem acquireOrRenew_outcome (now ttl : ℤ) (t : LeaseTable) (name holderID : String) :
    Outcome now ttl t name holderID (acquireOrRenew now ttl t name holderID).1
      (acquireOrRenew now ttl t name holderID).2 := by
  unfold acquireOrRenew
  split
  · exact .refused _
  split
  · exact .refused _
  cases ht : t name with
  | none => exact .created _ ht rfl rfl rfl
  | some r =>
    simp only
    by_cases hc : r.Claimable holderID now
    · rw [if_pos hc]
      by_cases hr : r.Renews holderID now
      · rw [if_pos hr, dif_pos r.token_le]
        exact .renewed r _ ht hr rfl rfl rfl
      -- a claimable row that is not renewed has expired, whoever held it
      have hlt : r.expiresAt < now := by
        by_contra hge
        rcases hc with hc | hc
        · exact hge hc
        · exact hr ⟨hc, by omega⟩
      rw [if_neg hr]
      split
      · exact .claimed r _ ht hlt rfl rfl rfl
      · exact .refused _
    · rw [if_neg hc]
      rw [LeaseRow.Claimable, not_or] at hc
      simpa [getLease, ht] using
        @Outcome.contended now ttl t name holderID r ht hc.2 (by omega)

theorem release_eq (t : LeaseTable) (name holderID : String) (token : ℕ) :
    release t name holderID token = t ∨
      ∃ r, t name = some r ∧ r.holderID = holderID ∧ r.token = token ∧
        release t name holderID token =
          update t name (some { r with expiresAt := 0 }) := by
  unfold release
  cases ht : t name with
  | none => exact .inl rfl
  | some r =>
    by_cases hm : r.holderID = holderID ∧ r.token = token
    · exact .inr ⟨r, rfl, hm.1, hm.2, by simp [hm]⟩
    · exact .inl (by simp [hm])

end Cfgms.Lease
