import Cfgms.Text.Decimal

/-! # Netstrings

A field is framed by its decimal length and a colon. A sequence of framed fields can be read
back in one way only, whatever bytes the fields hold.
-/

namespace Cfgms.Text

open List Function

theorem isDigit_of_mem {n : ℕ} {c : Char} (h : c ∈ Nat.toDigits 10 n) : c.isDigit = true :=
  Nat.isDigit_of_mem_toDigits (by decide) (by decide) h

def decimal (n : ℕ) : String := .ofList (Nat.toDigits 10 n)

theorem toDigits_injective : Injective (Nat.toDigits 10) := by
  intro m n h
  have hvalue : ∀ n, Nat.ofDigitChars 10 (Nat.toDigits 10 n) 0 = n :=
    fun n => Nat.ofDigitChars_toDigits (by decide) (by decide)
  rw [← hvalue m, ← hvalue n, h]

theorem decimal_injective : Injective decimal :=
  fun _ _ h => toDigits_injective (String.ofList_injective h)

def formatInt : ℤ → String
  | .ofNat n => decimal n
  | .negSucc n => .ofList ('-' :: Nat.toDigits 10 (n + 1))

theorem minus_notMem_toDigits (n : ℕ) : '-' ∉ Nat.toDigits 10 n := by
  intro h
  exact absurd (isDigit_of_mem h) (by decide)

theorem formatInt_injective : Injective formatInt := by
  intro m n h
  rcases m with m | m <;> rcases n with n | n <;> have hd := String.ofList_injective h
  · rw [toDigits_injective hd]
  · exact absurd (hd ▸ mem_cons_self) (minus_notMem_toDigits m)
  · exact absurd (hd ▸ mem_cons_self) (minus_notMem_toDigits n)
  · rw [Nat.succ_injective (toDigits_injective (List.cons.inj hd).2)]

def bytes (s : String) : List UInt8 := s.toByteArray.data.toList

theorem bytes_injective : Injective bytes := by
  intro s t h
  have hdata : s.toByteArray.data = t.toByteArray.data := Array.toList_inj.mp h
  exact String.toByteArray_inj.mp (ByteArray.ext hdata)

def digitBytes (n : ℕ) : List UInt8 := (Nat.toDigits 10 n).map fun c => UInt8.ofNat c.toNat

theorem byte_of_isDigit {c : Char} (h : c.isDigit = true) :
    UInt8.ofNat c.toNat ≠ 58 ∧ Char.ofNat (UInt8.ofNat c.toNat).toNat = c := by
  have hrange : 48 ≤ c.toNat ∧ c.toNat ≤ 57 := by
    simpa [Char.isDigit, UInt32.le_iff_toNat_le] using h
  have hbyte : (UInt8.ofNat c.toNat).toNat = c.toNat := by
    rw [UInt8.toNat_ofNat']
    omega
  constructor
  · intro hcolon
    have hnat : c.toNat = 58 := by simpa [hbyte] using congrArg UInt8.toNat hcolon
    omega
  · rw [hbyte, Char.ofNat_toNat]

theorem colon_notMem_digitBytes (n : ℕ) : 58 ∉ digitBytes n := by
  intro h
  obtain ⟨c, hc, hcolon⟩ := mem_map.mp h
  exact (byte_of_isDigit (isDigit_of_mem hc)).1 hcolon

theorem digitBytes_injective : Injective digitBytes := by
  have hback : ∀ n, (digitBytes n).map (fun b => Char.ofNat b.toNat) = Nat.toDigits 10 n := by
    intro n
    rw [digitBytes, map_map]
    calc
      _ = (Nat.toDigits 10 n).map id :=
        map_congr_left fun c hc => (byte_of_isDigit (isDigit_of_mem hc)).2
      _ = Nat.toDigits 10 n := map_id _
  intro m n h
  apply toDigits_injective
  rw [← hback m, ← hback n, h]

/-- The length of a field, a colon and the field. -/
def frame (v : List UInt8) : List UInt8 := digitBytes v.length ++ 58 :: v

theorem frame_append_inj {v w s t : List UInt8} (h : frame v ++ s = frame w ++ t) :
    v = w ∧ s = t := by
  simp only [frame, append_assoc, cons_append] at h
  have hpart : ∀ n (s : List UInt8), (digitBytes n ++ 58 :: s).takeWhile (· ≠ 58) = digitBytes n := by
    intro n s
    have hdigits : ∀ b ∈ digitBytes n, decide (b ≠ 58) = true := fun b hb =>
      decide_eq_true (ne_of_mem_of_not_mem hb (colon_notMem_digitBytes n))
    rw [takeWhile_append_of_pos hdigits]
    simp
  have hlength := digitBytes_injective ((hpart _ _).symm.trans (h ▸ hpart _ _))
  rw [hlength, append_cancel_left_eq, cons_inj_right] at h
  exact append_inj h hlength.symm

def frames (fields : List (List UInt8)) : List UInt8 := fields.flatMap frame

/-- A sequence of texts, each of which can be told from what follows, ends where none starts. -/
theorem flatMap_append_inj {α β γ : Type*} {f : α → List β} {g : α → γ} {vs ws : List α}
    {s t : List β} (hinj : ∀ v ∈ vs, ∀ w ∈ ws, ∀ s t, f v ++ s = f w ++ t → g v = g w ∧ s = t)
    (hs : ∀ v u, f v ++ u ≠ s) (ht : ∀ v u, f v ++ u ≠ t)
    (h : vs.flatMap f ++ s = ws.flatMap f ++ t) : vs.map g = ws.map g ∧ s = t := by
  induction vs generalizing ws with
  | nil =>
    cases ws with
    | nil => exact ⟨rfl, h⟩
    | cons w ws => exact absurd (by simpa using h.symm) (hs w _)
  | cons v vs ih =>
    cases ws with
    | nil => exact absurd (by simpa using h) (ht v _)
    | cons w ws =>
      simp only [flatMap_cons, append_assoc] at h
      obtain ⟨hg, hrest⟩ := hinj v mem_cons_self w mem_cons_self _ _ h
      obtain ⟨hmap, hend⟩ := ih (fun v hv w hw =>
        hinj v (mem_cons_of_mem _ hv) w (mem_cons_of_mem _ hw)) hrest
      exact ⟨by rw [map_cons, map_cons, hg, hmap], hend⟩

theorem frames_injective : Injective frames := fun vs ws h => by
  simpa using (flatMap_append_inj (g := id) (s := []) (t := []) (fun _ _ _ _ _ _ => frame_append_inj)
    (by simp [frame]) (by simp [frame]) (congrArg (· ++ []) h)).1

/-- Bytes as the characters of the same codes. -/
def latin (bs : List UInt8) : String := .ofList (bs.map fun b => Char.ofNat b.toNat)

theorem latin_injective : Injective latin := by
  have hback : ∀ b : UInt8, UInt8.ofNat (Char.ofNat b.toNat).toNat = b := by
    intro b
    have hvalid : b.toNat.isValidChar := .inl (by have := b.toNat_lt; omega)
    rw [Char.toNat_ofNat, if_pos hvalid, UInt8.ofNat_toNat]
  have hchar : Injective fun b : UInt8 => Char.ofNat b.toNat := by
    intro b c h
    rw [← hback b, ← hback c]
    exact congrArg (fun x => UInt8.ofNat (Char.toNat x)) h
  intro bs cs h
  exact map_injective_iff.mpr hchar (String.ofList_injective h)

end Cfgms.Text
