import Mathlib.Data.List.Basic

/-! # Base64

The encoding of bytes with the alphabet for URLs and without padding.
-/

namespace Cfgms.Go.Base64

open List

def alphabet : List UInt8 :=
  "ABCDEFGHIJKLMNOPQRSTUVWXYZabcdefghijklmnopqrstuvwxyz0123456789-_".toList.map
    fun c => UInt8.ofNat c.toNat

def symbol (n : ℕ) : UInt8 := alphabet.getD n 0

/-- The groups of six bits of some bytes, the last one filled up with zeros. -/
def sextets : List UInt8 → List ℕ
  | a :: b :: c :: rest =>
    let n := a.toNat * 65536 + b.toNat * 256 + c.toNat
    n / 262144 :: n / 4096 % 64 :: n / 64 % 64 :: n % 64 :: sextets rest
  | [a, b] =>
    let n := a.toNat * 1024 + b.toNat * 4
    [n / 4096, n / 64 % 64, n % 64]
  | [a] => [a.toNat * 16 / 64, a.toNat * 16 % 64]
  | [] => []

/-- `RawURLEncoding.EncodeToString` -/
def encodeToString (s : List UInt8) : List UInt8 := (sextets s).map symbol

/-- The bytes of groups of six bits. Bits left over are ignored, and one group is no byte. -/
def unite : List ℕ → Option (List UInt8)
  | a :: b :: c :: d :: rest => do
    let n := a * 262144 + b * 4096 + c * 64 + d
    return .ofNat (n / 65536) :: .ofNat (n / 256) :: .ofNat n :: (← unite rest)
  | [a, b, c] =>
    let n := a * 4096 + b * 64 + c
    some [.ofNat (n / 1024), .ofNat (n / 4)]
  | [a, b] => some [.ofNat ((a * 64 + b) / 16)]
  | [_] => none
  | [] => some []

/-- `RawURLEncoding.DecodeString`, which passes over line breaks. -/
def decodeString (s : List UInt8) : Option (List UInt8) :=
  ((s.filter fun c => c ≠ 10 ∧ c ≠ 13).mapM alphabet.idxOf?).bind unite

theorem ofNat_eq {n : ℕ} {a : UInt8} (h : n % 256 = a.toNat) : UInt8.ofNat n = a := by
  rw [← UInt8.toNat_inj, UInt8.toNat_ofNat']
  exact h

theorem sextets_spec (s : List UInt8) :
    (∀ n ∈ sextets s, n < 64) ∧ unite (sextets s) = some s := by
  fun_induction sextets s with
  | case1 a b c rest n ih =>
    have ha := a.toNat_lt
    have hb := b.toNat_lt
    have hc := c.toNat_lt
    have hn : n / 262144 * 262144 + n / 4096 % 64 * 4096 + n / 64 % 64 * 64 + n % 64 = n := by omega
    simp only [forall_mem_cons, unite, ih.2, hn]
    rw [ofNat_eq (a := a) (by omega), ofNat_eq (a := b) (by omega), ofNat_eq (a := c) (by omega)]
    exact ⟨⟨by omega, by omega, by omega, by omega, ih.1⟩, rfl⟩
  | case2 a b n =>
    have ha := a.toNat_lt
    have hb := b.toNat_lt
    have hn : n / 4096 * 4096 + n / 64 % 64 * 64 + n % 64 = n := by omega
    simp only [forall_mem_cons, unite, hn]
    rw [ofNat_eq (a := a) (by omega), ofNat_eq (a := b) (by omega)]
    exact ⟨⟨by omega, by omega, by omega, by simp⟩, rfl⟩
  | case3 a =>
    have ha := a.toNat_lt
    simp only [forall_mem_cons, unite]
    rw [ofNat_eq (a := a) (by omega)]
    exact ⟨⟨by omega, by omega, by simp⟩, rfl⟩
  | case4 => simp [unite]

theorem symbol_spec : ∀ n < 64,
    alphabet.idxOf? (symbol n) = some n ∧ symbol n ≠ 10 ∧ symbol n ≠ 13 := by
  decide +kernel

theorem decodeString_encodeToString (s : List UInt8) :
    decodeString (encodeToString s) = some s := by
  have hsymbols : ∀ l : List ℕ, (∀ n ∈ l, n < 64) →
      ((l.map symbol).filter fun c => c ≠ 10 ∧ c ≠ 13).mapM alphabet.idxOf? = some l := by
    intro l hl
    induction l with
    | nil => rfl
    | cons n l ih =>
      rw [forall_mem_cons] at hl
      obtain ⟨hindex, hbreaks⟩ := symbol_spec n hl.1
      rw [map_cons, filter_cons_of_pos (by simpa using hbreaks), mapM_cons, ih hl.2, hindex]
      rfl
  obtain ⟨hlt, hunite⟩ := sextets_spec s
  rw [decodeString, encodeToString, hsymbols _ hlt, Option.bind_some, hunite]

end Cfgms.Go.Base64
