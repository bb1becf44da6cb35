import Mathlib.Data.Nat.Digits.Defs
import Mathlib.Tactic.Ring
import ShellScript.Escape

/-!
# Reading digits

An escape that is a number takes as many digits as there are, up to a limit, and keeps the number of those
that it has read in a word of 32 bits. `readDigits_eq` says which digits these are and that their number is
read, and `readDigitsChecked?_eq` that the word holds every number for which there is room.
-/

namespace ShellScript

namespace Escape

/-! ## Digits -/

/-- The digits by their values, with small letters above nine. -/
def smallDigits : List Char := "0123456789abcdef".toList

/-- The same with capital letters. -/
def capitalDigits : List Char := "0123456789ABCDEF".toList

/-- The value of a digit, by its place among the digits. -/
def digitValue? (radix : Nat) (b : UInt8) : Option Nat :=
  let c := Char.ofNat b.toNat
  (smallDigits.idxOf? c <|> capitalDigits.idxOf? c).filter (· < radix)

/-- The values of the digits that bytes begin with. -/
def digits (radix : Nat) : List UInt8 → List Nat
  | [] => []
  | b :: rest =>
    match digitValue? radix b with
    | some d => d :: digits radix rest
    | none => []

/-! ## Reading numbers -/

/-- What holds of the 256 bytes, one by one, holds of every byte. -/
theorem forall_byte {p : UInt8 → Prop} (h : ∀ n < 256, p (UInt8.ofNat n)) (b : UInt8) : p b := by
  have hb := h b.toNat b.toNat_lt
  rwa [UInt8.ofNat_toNat] at hb

/-- A digit has its place among the digits as its value, in the radixes that escapes use. -/
theorem digit?_eq (b : UInt8) : ∀ radix ∈ [8, 16],
    digit? (UInt32.ofNat radix) b = (digitValue? radix b).map UInt32.ofNat := by
  revert b
  exact forall_byte (by decide +kernel)

/-- A digit is less than its radix. -/
theorem digitValue?_lt {radix d : Nat} {b : UInt8} (h : digitValue? radix b = some d) : d < radix :=
  of_decide_eq_true (Option.filter_eq_some_iff.mp h).2

/-- The digits end in front of the first byte that is none. -/
theorem digits_cons (radix : Nat) (b : UInt8) (rest : List UInt8) : digits radix (b :: rest) =
    (digitValue? radix b).elim [] (· :: digits radix rest) := by
  rw [digits]
  cases digitValue? radix b <;> rfl

/-- There are no more digits than bytes. -/
theorem length_digits_le (radix : Nat) (bytes : List UInt8) :
    (digits radix bytes).length ≤ bytes.length := by
  induction bytes with
  | nil => exact Nat.le_refl _
  | cons b rest ih =>
    rw [digits_cons]
    cases digitValue? radix b with
    | none => exact Nat.zero_le _
    | some d => exact Nat.succ_le_succ ih

/-- Digits are less than their radix. -/
theorem digits_lt {radix : Nat} {bytes : List UInt8} : ∀ d ∈ digits radix bytes, d < radix := by
  induction bytes with
  | nil => simp [digits]
  | cons b rest ih =>
    rw [digits_cons]
    cases hb : digitValue? radix b with
    | none => simp
    | some d => simpa using ⟨digitValue?_lt hb, ih⟩

/-- Digits are ASCII characters. -/
theorem toNat_lt_of_digit {c : Char} (h : c ∈ smallDigits ++ capitalDigits) : c.toNat < 128 := by
  have hall : (smallDigits ++ capitalDigits).all (·.toNat < 128) = true := by decide
  exact of_decide_eq_true (List.all_eq_true.mp hall c h)

/-- A digit is an ASCII character. -/
theorem lt_of_digitValue? {radix d : Nat} {b : UInt8} (h : digitValue? radix b = some d) : b < 0x80 := by
  obtain ⟨hvalue, -⟩ := Option.filter_eq_some_iff.mp h
  have hmem {cs : List Char} (hd : cs.idxOf? (Char.ofNat b.toNat) = some d) : Char.ofNat b.toNat ∈ cs := by
    obtain ⟨hlt, hget, -⟩ := List.idxOf?_eq_some_iff.mp hd
    exact hget ▸ List.getElem_mem hlt
  have hdigit : Char.ofNat b.toNat ∈ smallDigits ++ capitalDigits := by
    rw [List.mem_append]
    rcases (Option.orElse_eq_some _ _ _).mp hvalue with hd | ⟨-, hd⟩
    · exact .inl (hmem hd)
    · exact .inr (hmem hd)
  have hvalid : ∀ n < 256, (Char.ofNat n).toNat = n := by
    intro n hn
    rw [Char.ofNat, dif_pos (.inl (by omega))]
    rfl
  have hlt := toNat_lt_of_digit hdigit
  rw [hvalid b.toNat b.toNat_lt] at hlt
  exact UInt8.lt_iff_toNat_lt.mpr hlt

/-- So is every byte up to where the digits end. -/
theorem lt_of_mem_digits (radix : Nat) (bytes : List UInt8) :
    ∀ b ∈ bytes.take (digits radix bytes).length, b < 0x80 := by
  induction bytes with
  | nil => simp
  | cons b rest ih =>
    rw [digits_cons]
    cases hb : digitValue? radix b with
    | none => simp
    | some d => simpa using ⟨lt_of_digitValue? hb, ih⟩

/-- The number of the digits is below that with one digit more. -/
theorem ofDigits_digits_lt {radix : Nat} (hradix : 1 < radix) (bytes : List UInt8) :
    Nat.ofDigits radix (digits radix bytes).reverse < radix ^ (digits radix bytes).length := by
  rw [← List.length_reverse]
  exact Nat.ofDigits_lt_base_pow_length hradix fun d hd => digits_lt d (List.mem_reverse.mp hd)

/-- As many digits are read as the bytes begin with, up to the limit, and their number is added behind what
was read before. -/
theorem readDigits_eq {radix : Nat} (hradix : radix ∈ [8, 16]) (limit before : Nat) (rest : List UInt8) :
    readDigits (UInt32.ofNat radix) limit (UInt32.ofNat before) rest =
      (let ds := digits radix (rest.take limit)
      (UInt32.ofNat (before * radix ^ ds.length + Nat.ofDigits radix ds.reverse), ds.length)) := by
  induction limit generalizing before rest with
  | zero => simp [readDigits, digits]
  | succ limit ih =>
    cases rest with
    | nil => simp [readDigits, digits]
    | cons b rest =>
      rw [readDigits, digit?_eq b radix hradix, List.take_succ_cons, digits_cons]
      cases digitValue? radix b with
      | none => simp
      | some d =>
        have hvalue : UInt32.ofNat before * UInt32.ofNat radix + UInt32.ofNat d =
            UInt32.ofNat (before * radix + d) := by
          rw [UInt32.ofNat_add, UInt32.ofNat_mul]
        simp only [Option.map_some, Option.elim_some, hvalue, ih, List.length_cons, List.reverse_cons,
          Nat.ofDigits_append, Nat.ofDigits_singleton, List.length_reverse]
        congr 2
        ring

/-- Reads a number as `readDigits` does, and gives up where the word that it is kept in overflows. -/
def readDigitsChecked? (radix : UInt32) :
    (limit : Nat) → (value : UInt32) → List UInt8 → Option (UInt32 × Nat)
  | 0, value, _ => some (value, 0)
  | _ + 1, value, [] => some (value, 0)
  | limit + 1, value, b :: rest =>
    match digit? radix b with
    | none => some (value, 0)
    | some d =>
      if value.toNat * radix.toNat + d.toNat < UInt32.size then
        (readDigitsChecked? radix limit (value * radix + d) rest).map fun (result, used) =>
          (result, used + 1)
      else none

/-- It never gives up where the digits that may still come leave room. -/
theorem readDigitsChecked?_eq {radix : UInt32} {limit : Nat} {value : UInt32}
    (hroom : (value.toNat + 1) * radix.toNat ^ limit ≤ UInt32.size) (rest : List UInt8) :
    readDigitsChecked? radix limit value rest = some (readDigits radix limit value rest) := by
  -- on the digits that may still come, each of which takes a factor of the room
  induction limit generalizing value rest with
  | zero => rfl
  | succ limit ih =>
    cases rest with
    | nil => rfl
    | cons b rest =>
      rw [readDigitsChecked?, readDigits]
      cases hd : digit? radix b with
      | none => rfl
      | some d =>
        have hlt : d.toNat < radix.toNat := by
          unfold digit? at hd
          obtain ⟨-, hlt⟩ := Option.filter_eq_some_iff.mp hd
          exact UInt32.lt_iff_toNat_lt.mp (of_decide_eq_true hlt)
        have hnext : (value.toNat * radix.toNat + d.toNat + 1) * radix.toNat ^ limit ≤ UInt32.size := by
          calc (value.toNat * radix.toNat + d.toNat + 1) * radix.toNat ^ limit
              ≤ ((value.toNat + 1) * radix.toNat) * radix.toNat ^ limit :=
                Nat.mul_le_mul_right _ (by rw [Nat.add_mul]; omega)
            _ = (value.toNat + 1) * radix.toNat ^ (limit + 1) := by ring
            _ ≤ UInt32.size := hroom
        have hfits : value.toNat * radix.toNat + d.toNat < UInt32.size := by
          have hpos : 0 < radix.toNat ^ limit := Nat.pow_pos (by omega)
          have := Nat.le_mul_of_pos_right (value.toNat * radix.toNat + d.toNat + 1) hpos
          omega
        have hvalue : (value * radix + d).toNat = value.toNat * radix.toNat + d.toNat := by
          rw [UInt32.toNat_add, UInt32.toNat_mul, Nat.mod_add_mod, Nat.mod_eq_of_lt hfits]
        dsimp only
        rw [if_pos hfits, ih (hvalue ▸ hnext)]
        rfl

end Escape

end ShellScript
