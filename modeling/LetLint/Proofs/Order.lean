/-
Orders. If values that compare as equal are equal, then a list of them has one sorted form. Texts compare
as their octets do: the values of characters with as many octets compare digit by digit, and a character
with more octets has a greater first one.
-/
import LetLint.Proofs.Text.Utf8
import Mathlib.Data.List.Perm.Basic
import Mathlib.Data.String.Basic

namespace LetLint

/-! ## Sorted forms -/

section

variable {α : Type} (cmp : α → α → Ordering) [Std.TransCmp cmp] {ds es : List α}

theorem pairwise_mergeSort (ds : List α) :
    (ds.mergeSort fun d e => (cmp d e).isLE).Pairwise fun d e => (cmp d e).isLE = true := by
  refine List.pairwise_mergeSort (fun d e f => Std.TransCmp.isLE_trans) (fun d e => ?_) ds
  have hswap : cmp e d = (cmp d e).swap := Std.OrientedCmp.eq_swap
  rw [hswap]
  cases cmp d e <;> rfl

/-- If values that compare as equal are equal, then a list of them has one sorted form. -/
theorem eq_mergeSort (hequal : ∀ d ∈ ds, ∀ e ∈ ds, cmp d e = .eq → d = e) (hperm : es.Perm ds)
    (hsorted : es.Pairwise fun d e => (cmp d e).isLE = true) : es = ds.mergeSort fun d e => (cmp d e).isLE := by
  have hsame := List.mergeSort_perm ds fun d e => (cmp d e).isLE
  refine List.Perm.eq_of_pairwise (fun d e hd he hde hed => ?_) hsorted (pairwise_mergeSort cmp ds)
    (hperm.trans hsame.symm)
  exact hequal d (hperm.mem_iff.1 hd) e (hsame.mem_iff.1 he) (Std.OrientedCmp.isLE_antisymm hde hed)

end

namespace Text.Utf8

/-! ## Octets -/

/-- The octets come before the others, whatever follows. -/
def Before (a b : List UInt8) : Prop := ∀ s t : List UInt8, compare (a ++ s) (b ++ t) = .lt

theorem before_of_lead {m n : Nat} (h : m < n) (hn : n < 256) (a b : List UInt8) :
    Before (UInt8.ofNat m :: a) (UInt8.ofNat n :: b) := by
  intro s t
  have hlt : UInt8.ofNat m < UInt8.ofNat n := by
    rw [UInt8.lt_iff_toNat_lt, UInt8.toNat_ofNat_of_lt' (Nat.lt_trans h hn), UInt8.toNat_ofNat_of_lt' hn]
    exact h
  have hcompare : compare (UInt8.ofNat m) (UInt8.ofNat n) = .lt := Std.LawfulLTCmp.eq_lt_iff_lt.2 hlt
  rw [List.cons_append, List.cons_append, List.compare_cons_cons, hcompare]
  rfl

theorem compare_append_left (p s t : List UInt8) : compare (p ++ s) (p ++ t) = compare s t := by
  induction p with
  | nil => rfl
  | cons o p ih =>
    rw [List.cons_append, List.cons_append, List.compare_cons_cons, Std.ReflOrd.compare_self, ih]
    rfl

/-- A value in digits of six bits, with all but the first marked as such. -/
def digits (lead : Nat) : Nat → Nat → List UInt8
  | 0, v => [UInt8.ofNat (v + lead)]
  | n + 1, v => digits lead n (v / 64) ++ [UInt8.ofNat (v % 64 + 0x80)]

theorem digits_eq_cons (lead n v : Nat) : ∃ rest, digits lead n v = UInt8.ofNat (v / 64 ^ n + lead) :: rest := by
  induction n generalizing v with
  | zero => exact ⟨[], by rw [Nat.pow_zero, Nat.div_one, digits]⟩
  | succ n ih =>
    obtain ⟨rest, hrest⟩ := ih (v / 64)
    refine ⟨rest ++ [UInt8.ofNat (v % 64 + 0x80)], ?_⟩
    rw [digits, hrest, Nat.div_div_eq_div_mul, Nat.mul_comm, ← Nat.pow_succ]
    rfl

/-- The smaller first digit comes first. -/
theorem before_of_first {lead lead' m n v w : Nat} (h : v / 64 ^ m + lead < w / 64 ^ n + lead')
    (hw : w / 64 ^ n + lead' < 256) : Before (digits lead m v) (digits lead' n w) := by
  obtain ⟨rest, hv⟩ := digits_eq_cons lead m v
  obtain ⟨rest', hw'⟩ := digits_eq_cons lead' n w
  rw [hv, hw']
  exact before_of_lead h hw rest rest'

/-- In as many digits, the smaller value comes first. -/
theorem before_digits {lead n v w : Nat} (h : v < w) (hw : w / 64 ^ n + lead < 256) :
    Before (digits lead n v) (digits lead n w) := by
  induction n generalizing v w with
  | zero => exact before_of_lead (Nat.add_lt_add_right h lead) (by simpa using hw) [] []
  | succ n ih =>
    intro s t
    simp only [digits, List.append_assoc]
    -- the values differ above the last digit, or in the last digit only
    rcases Nat.lt_or_eq_of_le (Nat.div_le_div_right (c := 64) (Nat.le_of_lt h)) with hlt | heq
    · refine ih hlt ?_ _ _
      rw [Nat.div_div_eq_div_mul, Nat.mul_comm, ← Nat.pow_succ]
      exact hw
    · rw [heq, compare_append_left]
      exact before_of_lead (by omega) (by omega) [] [] s t

/-! ## Characters -/

theorem encodeChar_eq_digits (c : Char) :
    (c.val.toNat < 0x80 ∧ String.utf8EncodeChar c = digits 0 0 c.val.toNat) ∨
      (0x80 ≤ c.val.toNat ∧ c.val.toNat < 0x800 ∧ String.utf8EncodeChar c = digits 0xC0 1 c.val.toNat) ∨
      (0x800 ≤ c.val.toNat ∧ c.val.toNat < 0x10000 ∧ String.utf8EncodeChar c = digits 0xE0 2 c.val.toNat) ∨
      (0x10000 ≤ c.val.toNat ∧ c.val.toNat < 0x110000 ∧ String.utf8EncodeChar c = digits 0xF0 3 c.val.toNat) := by
  have hvalid : c.val.toNat < 0xD800 ∨ 0xDFFF < c.val.toNat ∧ c.val.toNat < 0x110000 := c.valid
  unfold String.utf8EncodeChar
  dsimp only
  generalize c.val.toNat = v at hvalid
  have hthree : v / 4096 = v / 64 / 64 := by omega
  have hfour : v / 262144 = v / 64 / 64 / 64 := by omega
  split_ifs with h1 h2 h3
  · exact .inl ⟨by omega, rfl⟩
  · have hlead : v / 64 % 32 = v / 64 := Nat.mod_eq_of_lt (by omega)
    exact .inr (.inl ⟨by omega, by omega, by rw [hlead]; rfl⟩)
  · have hlead : v / 4096 % 16 = v / 64 / 64 := by omega
    exact .inr (.inr (.inl ⟨by omega, by omega, by rw [hlead]; rfl⟩))
  · have hlead : v / 262144 % 8 = v / 64 / 64 / 64 := by omega
    exact .inr (.inr (.inr ⟨by omega, by omega, by rw [hlead, hthree]; rfl⟩))

/-- A smaller character comes first in octets as well. -/
theorem before_of_char_lt {c d : Char} (h : c < d) : Before (String.utf8EncodeChar c) (String.utf8EncodeChar d) := by
  have hlt : c.val.toNat < d.val.toNat := h
  rcases encodeChar_eq_digits c with ⟨hc, ec⟩ | ⟨hc, hc', ec⟩ | ⟨hc, hc', ec⟩ | ⟨hc, hc', ec⟩ <;>
    rcases encodeChar_eq_digits d with ⟨hd, ed⟩ | ⟨hd, hd', ed⟩ | ⟨hd, hd', ed⟩ | ⟨hd, hd', ed⟩ <;>
    rw [ec, ed]
  -- a character with more octets has the greater first one; with as many, the digits decide
  all_goals first
    | omega
    | exact before_of_first (by omega) (by omega)
    | exact before_digits hlt (by omega)

/-! ## Texts -/

theorem compare_encode_of_lt {a b : String} (h : a < b) : compare (encode a) (encode b) = .lt := by
  have hlex : List.Lex (· < ·) a.toList b.toList := String.lt_iff_toList_lt.1 h
  unfold encode
  generalize a.toList = cs at hlex ⊢
  generalize b.toList = ds at hlex ⊢
  induction hlex with
  | @nil d ds =>
    obtain ⟨o, os, hd⟩ := List.exists_cons_of_ne_nil (String.utf8EncodeChar_ne_nil (c := d))
    rw [List.flatMap_nil, List.flatMap_cons, hd]
    rfl
  | rel hlt => exact before_of_char_lt hlt _ _
  | cons _ ih => rwa [List.flatMap_cons, List.flatMap_cons, compare_append_left]

/-- Texts compare as their octets do. -/
theorem compare_encode (a b : String) : compare (encode a) (encode b) = compare a b := by
  cases h : compare a b with
  | lt => exact compare_encode_of_lt (Std.LawfulLTCmp.eq_lt_iff_lt.1 h)
  | eq => rw [Std.LawfulEqOrd.eq_of_compare h, Std.ReflOrd.compare_self]
  | gt =>
    have hlt : b < a := Std.LawfulLTCmp.eq_gt_iff_gt.1 h
    have hswap : compare (encode a) (encode b) = (compare (encode b) (encode a)).swap := Std.OrientedOrd.eq_swap
    rw [hswap, compare_encode_of_lt hlt]
    rfl

end Text.Utf8

end LetLint
