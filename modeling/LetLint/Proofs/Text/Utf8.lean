/-
Reading UTF-8 is the inverse of writing it. While a character is pending, its octets so far can be
completed by those that are still admitted, and by no others, to the octets of one character; so what
is read without a fault are the octets of the text, and the octets of every text are read back.
-/
import LetLint.Text.Utf8
import Mathlib.Data.List.Basic

namespace LetLint.Text.Utf8

/-- The octets of a text. -/
def encode (text : String) : List UInt8 := text.toList.flatMap String.utf8EncodeChar

/-! ## The octets of one character -/

theorem toNat_charOfNat {v : Nat} (h : v.isValidChar) : (Char.ofNat v).val.toNat = v := by
  rw [Char.ofNat, dif_pos h]
  rfl

theorem eq_ofNat {o : UInt8} {n : Nat} (h : o.toNat = n) : UInt8.ofNat n = o := by
  rw [← h, UInt8.ofNat_toNat]

section

variable {v : Nat} {a b c d : UInt8}

theorem encodeChar_one {o : UInt8} (h : o.toNat < 0x80) : String.utf8EncodeChar (Char.ofNat o.toNat) = [o] := by
  have hv : o.toNat.isValidChar := .inl (by omega)
  unfold String.utf8EncodeChar
  simp only [toNat_charOfNat hv]
  rw [if_pos (by omega), UInt8.ofNat_toNat]

theorem encodeChar_two (hlow : 0x80 ≤ v) (hhigh : v ≤ 0x7FF) (ha : a.toNat = v / 64 + 0xC0)
    (hb : b.toNat = v % 64 + 0x80) : String.utf8EncodeChar (Char.ofNat v) = [a, b] := by
  have hv : v.isValidChar := .inl (by omega)
  have hlead : UInt8.ofNat (v / 64 % 32 + 192) = a := eq_ofNat (by omega)
  unfold String.utf8EncodeChar
  simp only [toNat_charOfNat hv]
  rw [if_neg (by omega), if_pos hhigh, hlead, eq_ofNat hb]

theorem encodeChar_three (hv : v < 0xD800 ∨ 0xDFFF < v) (hlow : 0x800 ≤ v) (hhigh : v ≤ 0xFFFF)
    (ha : a.toNat = v / 4096 + 0xE0) (hb : b.toNat = v / 64 % 64 + 0x80) (hc : c.toNat = v % 64 + 0x80) :
    String.utf8EncodeChar (Char.ofNat v) = [a, b, c] := by
  have hvalid : v.isValidChar := hv.imp id fun hv => ⟨hv, by omega⟩
  have hlead : UInt8.ofNat (v / 4096 % 16 + 224) = a := eq_ofNat (by omega)
  unfold String.utf8EncodeChar
  simp only [toNat_charOfNat hvalid]
  rw [if_neg (by omega), if_neg (by omega), if_pos hhigh, hlead, eq_ofNat hb, eq_ofNat hc]

theorem encodeChar_four (hlow : 0x10000 ≤ v) (hhigh : v < 0x110000) (ha : a.toNat = v / 262144 + 0xF0)
    (hb : b.toNat = v / 4096 % 64 + 0x80) (hc : c.toNat = v / 64 % 64 + 0x80) (hd : d.toNat = v % 64 + 0x80) :
    String.utf8EncodeChar (Char.ofNat v) = [a, b, c, d] := by
  have hv : v.isValidChar := .inr ⟨by omega, hhigh⟩
  have hlead : UInt8.ofNat (v / 262144 % 8 + 240) = a := eq_ofNat (by omega)
  unfold String.utf8EncodeChar
  simp only [toNat_charOfNat hv]
  rw [if_neg (by omega), if_neg (by omega), if_neg (by omega), hlead, eq_ofNat hb, eq_ofNat hc, eq_ofNat hd]

end

/-! ## Pending characters -/

/-- The octets may come one after the other, the first of them between the given bounds, and turn the bits
read so far into a value. -/
inductive Tail : Nat → Nat → Nat → List UInt8 → Nat → Prop
  | nil {low high code : Nat} : Tail low high code [] code
  | cons {low high code v : Nat} {o : UInt8} {tail : List UInt8} (hlow : low ≤ o.toNat) (hhigh : o.toNat ≤ high)
      (h : Tail 0x80 0xBF (code * 64 + (o.toNat - 0x80)) tail v) : Tail low high code (o :: tail) v

theorem Tail.last {low high code v : Nat} {o : UInt8} (hlow : low ≤ o.toNat) (hhigh : o.toNat ≤ high)
    (hv : code * 64 + (o.toNat - 0x80) = v) : Tail low high code [o] v :=
  hv ▸ .cons hlow hhigh .nil

/-- With the octets that are owed, those read so far encode the character of all their bits. -/
def Pending.Completes (p : Pending) (read : List UInt8) : Prop :=
  ∀ tail v, tail.length = p.owed → Tail p.low p.high p.code tail v →
    String.utf8EncodeChar (Char.ofNat v) = read ++ tail

section

variable {start low high code : Nat} {o : UInt8}

theorem completes_two (h : ∀ a : UInt8, low ≤ a.toNat → a.toNat ≤ high →
      String.utf8EncodeChar (Char.ofNat (code * 64 + (a.toNat - 0x80))) = [o, a]) :
    Pending.Completes ⟨start, 1, 1, low, high, code⟩ [o] := by
  intro tail v hlength htail
  obtain ⟨a, rfl⟩ := List.length_eq_one_iff.1 hlength
  obtain _ | ⟨ha, ha', ⟨⟩⟩ := htail
  exact h a ha ha'

theorem completes_three (h : ∀ a b : UInt8, low ≤ a.toNat → a.toNat ≤ high → 0x80 ≤ b.toNat → b.toNat ≤ 0xBF →
      String.utf8EncodeChar (Char.ofNat ((code * 64 + (a.toNat - 0x80)) * 64 + (b.toNat - 0x80))) = [o, a, b]) :
    Pending.Completes ⟨start, 1, 2, low, high, code⟩ [o] := by
  intro tail v hlength htail
  obtain ⟨a, b, rfl⟩ := List.length_eq_two.1 hlength
  obtain _ | ⟨ha, ha', _ | ⟨hb, hb', ⟨⟩⟩⟩ := htail
  exact h a b ha ha' hb hb'

theorem completes_four (h : ∀ a b c : UInt8, low ≤ a.toNat → a.toNat ≤ high → 0x80 ≤ b.toNat → b.toNat ≤ 0xBF →
      0x80 ≤ c.toNat → c.toNat ≤ 0xBF →
      String.utf8EncodeChar (Char.ofNat (((code * 64 + (a.toNat - 0x80)) * 64 + (b.toNat - 0x80)) * 64 +
        (c.toNat - 0x80))) = [o, a, b, c]) :
    Pending.Completes ⟨start, 1, 3, low, high, code⟩ [o] := by
  intro tail v hlength htail
  obtain ⟨a, b, c, rfl⟩ := List.length_eq_three.1 hlength
  obtain _ | ⟨ha, ha', _ | ⟨hb, hb', _ | ⟨hc, hc', ⟨⟩⟩⟩⟩ := htail
  exact h a b c ha ha' hb hb' hc hc'

end

/-- A first octet leaves open what completes it. -/
theorem completes_of_lead? {start : Nat} {o : UInt8} {p : Pending} (h : lead? start o.toNat = some p) :
    0 < p.owed ∧ p.Completes [o] := by
  unfold lead? at h
  split_ifs at h with h2 hE0 hED h3 hF0 h4 hF4 <;> cases h
  · exact ⟨Nat.one_pos, completes_two fun a _ _ => by apply encodeChar_two <;> omega⟩
  · exact ⟨Nat.two_pos, completes_three fun a b _ _ _ _ => by apply encodeChar_three <;> omega⟩
  · exact ⟨Nat.two_pos, completes_three fun a b _ _ _ _ => by apply encodeChar_three <;> omega⟩
  · exact ⟨Nat.two_pos, completes_three fun a b _ _ _ _ => by apply encodeChar_three <;> omega⟩
  · exact ⟨Nat.succ_pos 2, completes_four fun a b c _ _ _ _ _ _ => by apply encodeChar_four <;> omega⟩
  · exact ⟨Nat.succ_pos 2, completes_four fun a b c _ _ _ _ _ _ => by apply encodeChar_four <;> omega⟩
  · exact ⟨Nat.succ_pos 2, completes_four fun a b c _ _ _ _ _ _ => by apply encodeChar_four <;> omega⟩

/-- One more octet that fits leaves open what completes them all. -/
theorem Pending.Completes.step {p : Pending} {read : List UInt8} {o : UInt8} (h : p.Completes read)
    (hfits : p.low ≤ o.toNat ∧ o.toNat ≤ p.high) (howed : 1 < p.owed) :
    Pending.Completes ⟨p.start, p.done + 1, p.owed - 1, 0x80, 0xBF, p.code * 64 + (o.toNat - 0x80)⟩ (read ++ [o]) := by
  intro tail v hlength htail
  have hall : (o :: tail).length = p.owed := by
    rw [List.length_cons, hlength]
    exact Nat.sub_add_cancel (Nat.le_of_lt howed)
  rw [List.append_assoc, List.singleton_append]
  exact h (o :: tail) v hall (.cons hfits.1 hfits.2 htail)

/-- The last octet that is owed completes the character. -/
theorem Pending.Completes.last {p : Pending} {read : List UInt8} {o : UInt8} (h : p.Completes read)
    (hfits : p.low ≤ o.toNat ∧ o.toNat ≤ p.high) (howed : p.owed = 1) :
    String.utf8EncodeChar (Char.ofNat (p.code * 64 + (o.toNat - 0x80))) = read ++ [o] :=
  h [o] _ howed.symm (.cons hfits.1 hfits.2 .nil)

/-! ## Whole texts -/

theorem map_eq_ok {ε α β : Type} {x : Except ε α} {f : α → β} {b : β} (h : x.map f = .ok b) :
    ∃ a, x = .ok a ∧ f a = b := by
  cases x with
  | error => cases h
  | ok a =>
    cases h
    exact ⟨a, rfl, rfl⟩

/-- What is read are the octets of the characters found, those of a pending one included. -/
theorem encode_of_decodeFrom {place : Nat} {pending : Option Pending} {octets : List UInt8} {cs : List Char}
    (h : decodeFrom place pending octets = .ok cs) (read : List UInt8) (hnone : pending = none → read = [])
    (hread : ∀ p ∈ pending, 0 < p.owed ∧ p.Completes read) : read ++ octets = cs.flatMap String.utf8EncodeChar := by
  fun_induction decodeFrom place pending octets generalizing read cs with
  | case1 =>
    cases h
    simp [hnone]
  | case2 => cases h
  | case3 place o rest ho ih =>
    obtain ⟨cs, hrest, rfl⟩ := map_eq_ok h
    have htail := ih hrest [] (fun _ => rfl) (by simp)
    rw [hnone rfl, List.flatMap_cons, ← htail, encodeChar_one ho]
    rfl
  | case4 => cases h
  | case5 place o rest ho p hlead ih =>
    have htail := ih h [o] (by simp) fun p' hp' => by
      cases hp'
      exact completes_of_lead? hlead
    rw [hnone rfl]
    exact htail
  | case6 place p o rest hfits code howed =>
    rename_i ih
    obtain ⟨cs, hrest, rfl⟩ := map_eq_ok h
    obtain ⟨hpos, hp⟩ := hread p rfl
    have hlast : String.utf8EncodeChar (Char.ofNat code) = read ++ [o] := hp.last hfits (by omega)
    rw [List.flatMap_cons, ← ih hrest [] (fun _ => rfl) (by simp), hlast, List.append_assoc]
    rfl
  | case7 place p o rest hfits code howed =>
    rename_i ih
    obtain ⟨hpos, hp⟩ := hread p rfl
    have htail := ih h (read ++ [o]) (by simp) fun p' hp' => by
      cases hp'
      exact ⟨Nat.sub_pos_of_lt (by omega), hp.step hfits (by omega)⟩
    rw [← htail, List.append_assoc]
    rfl
  | case8 => cases h

/-- Octets that may come and are owed are read as the character of all bits. -/
theorem decodeFrom_pending {p : Pending} {tail : List UInt8} {v : Nat} (h : Tail p.low p.high p.code tail v)
    (hlength : tail.length = p.owed) (hne : tail ≠ []) (place : Nat) (rest : List UInt8) :
    decodeFrom place (some p) (tail ++ rest) =
      (decodeFrom (place + tail.length) none rest).map (Char.ofNat v :: ·) := by
  induction tail generalizing p place with
  | nil => exact absurd rfl hne
  | cons o tail ih =>
    obtain _ | ⟨hlow, hhigh, htail⟩ := h
    rw [List.cons_append, decodeFrom, if_pos ⟨hlow, hhigh⟩]
    cases tail with
    | nil =>
      cases htail
      exact if_pos (Nat.le_of_eq hlength.symm)
    | cons o' tail =>
      have howed : ¬ p.owed ≤ 1 := by
        simp only [List.length_cons] at hlength
        omega
      rw [if_neg howed, ih htail (by rw [← hlength]; rfl) (by simp), List.length_cons, Nat.add_assoc,
        Nat.add_comm 1]
      rfl

theorem lead?_three {o : Nat} (hlow : 0xE0 ≤ o) (hhigh : o ≤ 0xEF) (place : Nat) :
    lead? place o = some ⟨place, 1, 2, if o = 0xE0 then 0xA0 else 0x80, if o = 0xED then 0x9F else 0xBF, o - 0xE0⟩ := by
  unfold lead?
  rw [if_neg (by omega)]
  split_ifs <;> first | omega | simp_all

theorem lead?_four {o : Nat} (hlow : 0xF0 ≤ o) (hhigh : o ≤ 0xF4) (place : Nat) :
    lead? place o = some ⟨place, 1, 3, if o = 0xF0 then 0x90 else 0x80, if o = 0xF4 then 0x8F else 0xBF, o - 0xF0⟩ := by
  unfold lead?
  rw [if_neg (by omega), if_neg (by omega), if_neg (by omega), if_neg (by omega)]
  split_ifs <;> first | omega | simp_all

/-- A first octet and further ones that fit it are read as the character of all their bits. -/
theorem decodeFrom_lead {place owed low high code v : Nat} {o : UInt8} {tail rest : List UInt8} (ho : 0x80 ≤ o.toNat)
    (hlead : lead? place o.toNat = some ⟨place, 1, owed, low, high, code⟩) (htail : Tail low high code tail v)
    (hlength : tail.length = owed) (hne : tail ≠ []) :
    decodeFrom place none (o :: tail ++ rest) =
      (decodeFrom (place + (o :: tail).length) none rest).map (Char.ofNat v :: ·) := by
  rw [List.cons_append, decodeFrom, if_neg (by omega), hlead]
  show decodeFrom (place + 1) (some _) (tail ++ rest) = _
  rw [decodeFrom_pending htail hlength hne, List.length_cons, Nat.add_assoc, Nat.add_comm 1]

/-- The octets of a character are read as that character. -/
theorem decodeFrom_encodeChar (place : Nat) (c : Char) (rest : List UInt8) :
    decodeFrom place none (String.utf8EncodeChar c ++ rest) =
      (decodeFrom (place + (String.utf8EncodeChar c).length) none rest).map (c :: ·) := by
  have hvalid : c.val.toNat < 0xD800 ∨ 0xDFFF < c.val.toNat ∧ c.val.toNat < 0x110000 := c.valid
  have hc : Char.ofNat c.val.toNat = c := Char.ofNat_toNat c
  have hoctet {n : Nat} (hn : n < 256) : (UInt8.ofNat n).toNat = n := UInt8.toNat_ofNat_of_lt hn
  unfold String.utf8EncodeChar
  dsimp only
  generalize c.val.toNat = v at hvalid hc
  subst hc
  split_ifs with h1 h2 h3
  · rw [List.singleton_append, decodeFrom, hoctet (by omega), if_pos (by omega)]
    rfl
  · have hlead : (UInt8.ofNat (v / 64 % 32 + 192)).toNat = v / 64 % 32 + 192 := hoctet (by omega)
    have hlast : (UInt8.ofNat (v % 64 + 128)).toNat = v % 64 + 128 := hoctet (by omega)
    exact decodeFrom_lead (by omega) (if_pos (by omega)) (.last (by omega) (by omega) (by omega)) rfl (by simp)
  · have hlead : (UInt8.ofNat (v / 4096 % 16 + 224)).toNat = v / 4096 % 16 + 224 := hoctet (by omega)
    have hnext : (UInt8.ofNat (v / 64 % 64 + 128)).toNat = v / 64 % 64 + 128 := hoctet (by omega)
    have hlast : (UInt8.ofNat (v % 64 + 128)).toNat = v % 64 + 128 := hoctet (by omega)
    refine decodeFrom_lead (by omega) (lead?_three (by omega) (by omega) place)
      (.cons ?_ ?_ (.last (by omega) (by omega) (by omega))) rfl (by simp) <;> split_ifs <;> omega
  · have hlead : (UInt8.ofNat (v / 262144 % 8 + 240)).toNat = v / 262144 % 8 + 240 := hoctet (by omega)
    have hnext : (UInt8.ofNat (v / 4096 % 64 + 128)).toNat = v / 4096 % 64 + 128 := hoctet (by omega)
    have hthird : (UInt8.ofNat (v / 64 % 64 + 128)).toNat = v / 64 % 64 + 128 := hoctet (by omega)
    have hlast : (UInt8.ofNat (v % 64 + 128)).toNat = v % 64 + 128 := hoctet (by omega)
    refine decodeFrom_lead (by omega) (lead?_four (by omega) (by omega) place)
      (.cons ?_ ?_ (.cons (by omega) (by omega) (.last (by omega) (by omega) (by omega)))) rfl (by simp) <;>
      split_ifs <;> omega

/-- Octets are read as a text if they are the octets of the text, and only then. -/
theorem decode_eq_ok_iff {octets : List UInt8} {text : String} :
    decode octets = .ok text ↔ octets = encode text := by
  have hback (cs : List Char) (place : Nat) : decodeFrom place none (cs.flatMap String.utf8EncodeChar) = .ok cs := by
    induction cs generalizing place with
    | nil => rfl
    | cons c cs ih =>
      rw [List.flatMap_cons, decodeFrom_encodeChar, ih]
      rfl
  constructor
  · intro h
    obtain ⟨cs, hcs, rfl⟩ := map_eq_ok h
    rw [encode, String.toList_ofList]
    exact encode_of_decodeFrom hcs [] (fun _ => rfl) (by simp)
  · rintro rfl
    rw [decode, encode, hback]
    show Except.ok (String.ofList text.toList) = _
    rw [String.ofList_toList]

end LetLint.Text.Utf8
