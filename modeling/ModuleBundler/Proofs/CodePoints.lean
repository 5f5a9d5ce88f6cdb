import ModuleBundler.Text.CodePoints

/-!
What becomes of a string when surrogates that stand together are taken for characters. Only a string with a
high surrogate directly in front of a low one is changed.
-/
namespace ModuleBundler.CodePoints

def Bounded (codes : CodePoints) : Prop := ∀ code ∈ codes, code < 1114112

instance (codes : CodePoints) : Decidable (Bounded codes) :=
  inferInstanceAs (Decidable (∀ code ∈ codes, code < 1114112))

-- Whether two code points are the halves of one character.
def halves (high low : Nat) : Bool := isHighSurrogate high && isLowSurrogate low

-- No high surrogate stands directly in front of a low one.
def Parted (codes : CodePoints) : Prop :=
  ∀ before high low after, codes = before ++ high :: low :: after → halves high low = false

variable {codes : CodePoints} {code high low : Nat}

theorem toNat_bounds (c : Char) : c.toNat < 55296 ∨ 57343 < c.toNat ∧ c.toNat < 1114112 := c.valid

theorem toNat_lt (c : Char) : c.toNat < 1114112 := by
  have bounds := toNat_bounds c
  omega

theorem Bounded.single (small : code < 1114112) : Bounded [code] :=
  fun _ among => List.mem_singleton.mp among ▸ small

theorem bounded_ofText (text : Text) : Bounded (ofText text) := by
  intro code among
  obtain ⟨c, _, rfl⟩ := List.mem_map.mp among
  exact toNat_lt c

theorem Bounded.tail (bounded : Bounded (code :: codes)) : Bounded codes :=
  fun other among => bounded other (List.mem_cons_of_mem _ among)

theorem toNat_high (c : Char) : isHighSurrogate c.toNat = false := by
  have bounds := toNat_bounds c
  simp only [isHighSurrogate, Bool.and_eq_false_iff, decide_eq_false_iff_not]
  omega

theorem toNat_ofNat (valid : code.isValidChar) : (Char.ofNat code).toNat = code := by
  rw [Char.ofNat, dif_pos valid]
  rfl

-- Which character two halves make, and that they are its halves.
theorem pair_bounds (both : halves high low = true) :
    65536 ≤ pair high low ∧ pair high low < 1114112 ∧
      55296 + (pair high low - 65536) / 1024 = high ∧ 56320 + (pair high low - 65536) % 1024 = low := by
  simp only [halves, isHighSurrogate, isLowSurrogate, Bool.and_eq_true, decide_eq_true_eq] at both
  unfold pair
  omega

-- The halves of a character past the first plane, which make that character.
theorem halves_toNat {c : Char} (large : 65536 ≤ c.toNat) :
    halves (55296 + (c.toNat - 65536) / 1024) (56320 + (c.toNat - 65536) % 1024) = true ∧
      pair (55296 + (c.toNat - 65536) / 1024) (56320 + (c.toNat - 65536) % 1024) = c.toNat := by
  have bound := toNat_lt c
  constructor
  · simp only [halves, isHighSurrogate, isLowSurrogate, Bool.and_eq_true, decide_eq_true_eq]
    omega
  · unfold pair
    omega

theorem halves_odd (both : halves high low = true) : ¬ high.isValidChar ∧ ¬ low.isValidChar := by
  simp only [halves, isHighSurrogate, isLowSurrogate, Bool.and_eq_true, decide_eq_true_eq] at both
  simp only [Nat.isValidChar]
  omega

theorem exists_pair (both : halves high low = true) : ∃ c : Char, c.toNat = pair high low := by
  obtain ⟨least, most, _⟩ := pair_bounds both
  have valid : (pair high low).isValidChar := .inr ⟨by omega, most⟩
  exact ⟨_, toNat_ofNat valid⟩

theorem joined_pair (both : halves high low = true) :
    joined (high :: low :: codes) = pair high low :: joined codes := by
  rw [joined]
  exact if_pos both

-- A code point that is not the first half of a pair stays.
theorem joined_cons (alone : ∀ low rest, codes = low :: rest → halves code low = false) :
    joined (code :: codes) = code :: joined codes := by
  cases codes with
  | nil => rfl
  | cons low rest =>
    have apart : ¬ (isHighSurrogate code && isLowSurrogate low) = true :=
      Bool.eq_false_iff.mp (alone low rest rfl)
    rw [joined, if_neg apart]

theorem Parted.tail (parted : Parted (code :: codes)) : Parted codes := by
  rintro before high low after rfl
  exact parted (code :: before) high low after rfl

theorem length_joined (codes : CodePoints) : (joined codes).length ≤ codes.length := by
  fun_induction joined codes with
  | case1 => exact Nat.le_refl _
  | case2 high low rest both ih => exact Nat.succ_le_succ (Nat.le_succ_of_le ih)
  | case3 high low rest alone ih => exact Nat.succ_le_succ ih
  | case4 code => exact Nat.le_refl _

theorem joined_eq_iff (codes : CodePoints) : joined codes = codes ↔ Parted codes := by
  fun_induction joined codes with
  | case1 =>
    refine iff_of_true rfl ?_
    rintro before high low after same
    cases before <;> cases same
  | case2 high low rest both ih =>
    refine iff_of_false (fun same => ?_) fun parted => ?_
    · have shorter := length_joined rest
      have equal := congrArg List.length same
      simp only [List.length_cons] at equal
      omega
    · exact absurd both (by simpa [halves] using parted [] high low rest rfl)
  | case3 high low rest alone ih =>
    rw [List.cons.injEq, ih]
    constructor
    · rintro ⟨_, parted⟩ before first second after same
      cases before with
      | nil =>
        cases same
        simpa [halves] using alone
      | cons _ before => exact parted before first second after (List.cons.inj same).2
    · exact fun parted => ⟨rfl, parted.tail⟩
  | case4 code =>
    refine iff_of_true rfl ?_
    rintro before high low after same
    have equal := congrArg List.length same
    simp at equal
    omega

theorem parted_ofText (text : Text) : Parted (ofText text) := by
  rintro before high low after same
  have member : high ∈ ofText text := by rw [same]; simp
  obtain ⟨c, _, rfl⟩ := List.mem_map.mp member
  rw [halves, toNat_high, Bool.false_and]

theorem joined_ofText (text : Text) : joined (ofText text) = ofText text :=
  (joined_eq_iff _).mpr (parted_ofText text)

theorem ofText_injective (same : ofText first = ofText second) : first = second :=
  List.map_inj_right (fun _ _ equal => Char.toNat_inj.mp equal) |>.mp same

end ModuleBundler.CodePoints
