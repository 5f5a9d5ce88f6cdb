import ModuleBundler.Proofs.LiteralValue

/-!
A written literal is read back as its text by the rules of JSON, in front of anything. So a literal
says itself where it ends, and so does a number in front of anything but a digit.
-/
namespace ModuleBundler

theorem Literal.length_guardClosers (written : Text) :
    written.length ≤ (guardClosers written).length := by
  induction written with
  | nil => exact Nat.le_refl _
  | cons c rest ih =>
    obtain ⟨later, rfl, rfl, guarded⟩ | ⟨_, kept⟩ := guardClosers_cases c rest
    · rw [guarded]
      exact Nat.succ_le_succ (Nat.le_succ_of_le ih)
    · rw [kept]
      exact Nat.succ_le_succ ih

namespace Json

theorem hex4?_hex4 (small : n < 65536) (more : Text) : hex4? (hex4 n ++ more) = some (n, more) := by
  have digit : ∀ k, hexValue? (hexDigit (k % 16)) = some (k % 16) :=
    fun k => hexValue?_hexDigit _ (Nat.mod_lt k (by decide))
  have value : n / 4096 % 16 * 4096 + n / 256 % 16 * 256 + n / 16 % 16 * 16 + n % 16 = n := by omega
  simp only [hex4, List.cons_append, List.nil_append, hex4?, digit, Option.bind_eq_bind, Option.bind_some,
    value]
  rfl

-- Text that does not go on with the escape of a low surrogate.
def Unpaired (more : Text) : Prop :=
  ∀ digits, more = '\\' :: 'u' :: digits →
    ∃ unit later, hex4? digits = some (unit, later) ∧ CodePoints.isLowSurrogate unit = false

theorem unicodeEscape?_single (open_ : more ≠ []) (small : unit < 65536)
    (single : CodePoints.isHighSurrogate unit = true → Unpaired more) :
    unicodeEscape? ('u' :: (hex4 unit ++ more)) = .ok (unit, more) := by
  rw [unicodeEscape?, List.drop_one, List.tail_cons, hex4?_hex4 small]
  dsimp only
  rw [if_neg (by simpa using open_)]
  split
  · rename_i high
    rw [Bool.and_eq_true] at high
    split
    · rename_i digits
      obtain ⟨second, later, read, other⟩ := single high.1 digits rfl
      simp [read, other]
    · rfl
  · rfl

-- Two escapes that form a pair are read as one character.
theorem unicodeEscape?_pair (open_ : more ≠ []) (both : CodePoints.halves high low = true) :
    unicodeEscape? ('u' :: (hex4 high ++ (unicodeEscape low ++ more)))
      = .ok (CodePoints.pair high low, more) := by
  rw [CodePoints.halves, Bool.and_eq_true] at both
  obtain ⟨first, second⟩ := both
  have bounds : high < 65536 ∧ low < 65536 := by
    simp only [CodePoints.isHighSurrogate, CodePoints.isLowSurrogate, Bool.and_eq_true,
      decide_eq_true_eq] at first second
    omega
  have long : 6 < (hex4 low ++ more).length + 2 := by
    have positive := List.length_pos_iff.mpr open_
    simp [hex4]
    omega
  rw [unicodeEscape?, List.drop_one, List.tail_cons, hex4?_hex4 bounds.1]
  simp only [unicodeEscape, List.cons_append, List.isEmpty_cons, List.length_cons, first, long,
    hex4?_hex4 bounds.2, second]
  rfl

section
variable (opening : Text) (fuel : Nat)

-- What a string reads as when one more code point stands in front of it.
def withFirst (code : Nat) (read : Except Failure (CodePoints × Text)) :
    Except Failure (CodePoints × Text) :=
  read.map fun (codes, after) => (code :: codes, after)

theorem readString_plain (unquoted : c ≠ '"') (unescaped : c ≠ '\\') (printable : Text.Visible c)
    (more : Text) :
    readString opening (fuel + 1) (c :: more) = withFirst c.toNat (readString opening fuel more) := by
  have shown : ¬ c.toNat < 32 := Nat.not_lt.mpr printable.1
  rw [readString.eq_def]
  simp only [beq_iff_eq, unquoted, unescaped, shown, if_false]
  cases readString opening fuel more <;> rfl

theorem readString_simple (simple : simpleEscape? letter = some c) (more : Text) :
    readString opening (fuel + 1) ('\\' :: letter :: more)
      = withFirst c.toNat (readString opening fuel more) := by
  have other : letter ≠ 'u' := by
    rintro rfl
    cases simple
  rw [readString.eq_def]
  simp only [simple]
  rw [if_neg (by decide), if_pos (by decide)]
  cases readString opening fuel more <;> rfl

theorem readString_unicode (escaped : unicodeEscape? ('u' :: digits) = .ok (code, more)) :
    readString opening (fuel + 1) ('\\' :: 'u' :: digits)
      = withFirst code (readString opening fuel more) := by
  rw [readString.eq_def]
  simp only [escaped]
  rw [if_neg (by decide), if_pos (by decide)]
  change (readString opening fuel more >>= fun (codes, after) => pure (code :: codes, after)) = _
  cases readString opening fuel more <;> rfl

theorem readString_quoteChar (c : Char) (open_ : more ≠ []) :
    readString opening (fuel + 1) (quoteChar c ++ more)
      = withFirst c.toNat (readString opening fuel more) := by
  have short : ∀ escape ∈ shortEscapes, simpleEscape? escape.1 = some escape.2 := by decide
  have quoted := quoteChar_quoted c
  generalize quoteChar c = written at quoted ⊢
  cases quoted with
  | short letter listed => exact readString_simple opening fuel (short _ listed) more
  | plain unquoted unescaped printable =>
    exact readString_plain opening fuel unquoted unescaped printable more
  | unit small =>
    have escaped := unicodeEscape?_single open_ small fun high => by simp [CodePoints.toNat_high] at high
    exact readString_unicode opening fuel escaped
  | pair large =>
    obtain ⟨both, same⟩ := CodePoints.halves_toNat large
    have escaped := unicodeEscape?_pair open_ both
    rw [same] at escaped
    rw [List.append_assoc]
    exact readString_unicode opening fuel escaped

-- A code point that is no character is a surrogate, which is one code unit.
theorem surrogate_small (bounded : code < 1114112) (odd : ¬ code.isValidChar) : code < 65536 := by
  have outside : ¬ (code < 55296 ∨ 57343 < code ∧ code < 1114112) := odd
  omega

theorem readString_quoteCode (bounded : code < 1114112) (open_ : more ≠ [])
    (single : CodePoints.isHighSurrogate code = true → Unpaired more) :
    readString opening (fuel + 1) (quoteCode code ++ more)
      = withFirst code (readString opening fuel more) := by
  obtain ⟨c, rfl, same⟩ | ⟨odd, same⟩ := quoteCode_cases code
  · rw [same, readString_quoteChar opening fuel c open_]
  · rw [same]
    have escaped := unicodeEscape?_single open_ (surrogate_small bounded odd) single
    exact readString_unicode opening fuel escaped

-- The slash of a closing tag is read behind its backslash too.
theorem readString_closer (rest : Text) :
    readString opening fuel ('\\' :: '/' :: rest) = readString opening fuel ('/' :: rest) := by
  cases fuel with
  | zero => rfl
  | succ fuel =>
    rw [readString_simple opening fuel rfl,
      readString_plain opening fuel (by decide) (by decide) (by decide)]

-- A guard between `<` and what follows it changes nothing.
theorem readString_guard (written more : Text) :
    readString opening (fuel + 1) (Literal.guardClosers ('<' :: written) ++ more)
      = readString opening (fuel + 1) ('<' :: (Literal.guardClosers written ++ more)) := by
  obtain ⟨others, _, rfl, guarded⟩ | ⟨_, kept⟩ := Literal.guardClosers_cases '<' written
  · have slash := Literal.guardClosers_other (c := '/') (by decide) others
    have plain := readString_plain opening fuel (c := '<') (by decide) (by decide) (by decide)
    rw [guarded, slash]
    simp only [List.cons_append]
    rw [plain, plain, readString_closer]
  · rw [kept, List.cons_append]

end

theorem quoteCode_opens : quoteCode '<'.toNat = ['<'] := by decide

theorem plain_quoteCode (other : code ≠ '<'.toNat) : '<' ∉ quoteCode code := by
  obtain ⟨c, rfl, same⟩ | ⟨_, same⟩ := quoteCode_cases code
  · rw [same]
    exact plain_quoteChar fun opens => other (congrArg Char.toNat opens)
  · rw [same]
    exact plain_unicodeEscape code

-- An escape tells which code unit it is of, and no character begins with a low surrogate.
theorem unpaired_quoteCode (bounded : code < 1114112) (other : CodePoints.isLowSurrogate code = false)
    (more : Text) : Unpaired (quoteCode code ++ more) := by
  intro digits same
  have escaped : ∀ {unit rest}, unit < 65536 → CodePoints.isLowSurrogate unit = false →
      unicodeEscape unit ++ rest = '\\' :: 'u' :: digits →
      ∃ unit later, hex4? digits = some (unit, later) ∧ CodePoints.isLowSurrogate unit = false := by
    intro unit rest small apart same
    have cut : hex4 unit ++ rest = digits := (List.cons.inj (List.cons.inj same).2).2
    exact ⟨unit, rest, cut ▸ hex4?_hex4 small rest, apart⟩
  obtain ⟨c, rfl, written⟩ | ⟨odd, written⟩ := quoteCode_cases code
  · have letters : ∀ escape ∈ shortEscapes, escape.1 ≠ 'u' := by decide
    have quoted := quoteChar_quoted c
    rw [written] at same
    generalize quoteChar c = shape at quoted same
    cases quoted with
    | short letter listed => exact absurd (List.cons.inj (List.cons.inj same).2).1 (letters _ listed)
    | plain unquoted unescaped printable => exact absurd (List.cons.inj same).1 unescaped
    | unit small => exact escaped small other same
    | pair large =>
      have bound := CodePoints.toNat_lt c
      rw [List.append_assoc] at same
      refine escaped (by omega) ?_ same
      simp only [CodePoints.isLowSurrogate, Bool.and_eq_false_iff, decide_eq_false_iff_not]
      omega
  · rw [written] at same
    exact escaped (surrogate_small bounded odd) other same

-- What is written of some code points begins as what is written of the first one.
theorem guarded_cons (code : Nat) (codes : CodePoints) :
    ∃ rest, Literal.guardClosers ((code :: codes).flatMap quoteCode) = quoteCode code ++ rest := by
  rw [List.flatMap_cons]
  by_cases opens : code = '<'.toNat
  · rw [opens, quoteCode_opens]
    obtain ⟨rest, _, _, guarded⟩ | ⟨_, kept⟩ :=
      Literal.guardClosers_cases '<' (codes.flatMap quoteCode)
    · exact ⟨_, guarded⟩
    · exact ⟨_, kept⟩
  · exact ⟨_, Literal.guardClosers_append_plain (plain_quoteCode opens) _⟩

theorem unpaired_guarded {codes : CodePoints} (bounded : codes.Bounded)
    (apart : ∀ low rest, codes = low :: rest → CodePoints.isLowSurrogate low = false) (more : Text) :
    Unpaired (Literal.guardClosers (codes.flatMap quoteCode) ++ '"' :: more) := by
  cases codes with
  | nil =>
    rintro digits same
    cases same
  | cons low rest =>
    obtain ⟨later, written⟩ := guarded_cons low rest
    rw [written, List.append_assoc]
    exact unpaired_quoteCode (bounded low List.mem_cons_self) (apart low rest rfl) _

-- A code point that is not the first half of a pair is read by itself.
theorem readString_alone {codes : CodePoints} (bounded : CodePoints.Bounded (code :: codes))
    (alone : ∀ low rest, codes = low :: rest → CodePoints.halves code low = false)
    (opening more : Text) (fuel : Nat) :
    readString opening (fuel + 1)
        (Literal.guardClosers ((code :: codes).flatMap quoteCode) ++ '"' :: more)
      = withFirst code
        (readString opening fuel (Literal.guardClosers (codes.flatMap quoteCode) ++ '"' :: more)) := by
  have open_ : Literal.guardClosers (codes.flatMap quoteCode) ++ '"' :: more ≠ [] := by simp
  have single : CodePoints.isHighSurrogate code = true →
      Unpaired (Literal.guardClosers (codes.flatMap quoteCode) ++ '"' :: more) := by
    intro high
    refine unpaired_guarded bounded.tail (fun low rest same => ?_) more
    simpa [CodePoints.halves, high] using alone low rest same
  have step := readString_quoteCode opening fuel (bounded code List.mem_cons_self) open_ single
  rw [List.flatMap_cons]
  by_cases opens : code = '<'.toNat
  · rw [opens, quoteCode_opens] at step ⊢
    exact (readString_guard opening fuel _ _).trans step
  · rw [Literal.guardClosers_append_plain (plain_quoteCode opens), List.append_assoc, step]

theorem quoteCode_halves (both : CodePoints.halves high low = true) :
    quoteCode high = unicodeEscape high ∧ quoteCode low = unicodeEscape low := by
  obtain ⟨odd, odd'⟩ := CodePoints.halves_odd both
  exact ⟨if_neg odd, if_neg odd'⟩

-- A character past the first plane is written as its two halves.
theorem quoteChar_large {c : Char} (large : 65536 ≤ c.toNat) :
    quoteChar c = unicodeEscape (55296 + (c.toNat - 65536) / 1024)
      ++ unicodeEscape (56320 + (c.toNat - 65536) % 1024) := by
  have short : ∀ escape ∈ shortEscapes, escape.2.toNat < 65536 := by decide
  have quoted := quoteChar_quoted c
  generalize quoteChar c = written at quoted ⊢
  cases quoted with
  | short letter listed => exact absurd large (Nat.not_le.mpr (short _ listed))
  | plain _ _ printable =>
    obtain ⟨_, most⟩ := printable
    omega
  | unit small => exact absurd large (Nat.not_le.mpr small)
  | pair _ => rfl

theorem quoteCode_pair (both : CodePoints.halves high low = true) :
    quoteCode (CodePoints.pair high low) = unicodeEscape high ++ unicodeEscape low := by
  obtain ⟨least, _, first, second⟩ := CodePoints.pair_bounds both
  obtain ⟨c, code⟩ := CodePoints.exists_pair both
  rw [← code] at first second least ⊢
  rw [quoteCode_toNat, quoteChar_large least, first, second]

-- A pair is written like its two halves.
theorem flatMap_joined (codes : CodePoints) :
    codes.joined.flatMap quoteCode = codes.flatMap quoteCode := by
  fun_induction CodePoints.joined codes with
  | case1 => rfl
  | case2 high low rest both ih =>
    obtain ⟨first, second⟩ := quoteCode_halves both
    rw [List.flatMap_cons, List.flatMap_cons, List.flatMap_cons, quoteCode_pair both, first, second, ih,
      List.append_assoc]
  | case3 code low rest alone ih => rw [List.flatMap_cons, List.flatMap_cons, ih]
  | case4 code => rfl

-- Two halves are read together.
theorem readString_halves (both : CodePoints.halves high low = true) (codes : CodePoints)
    (opening more : Text) (fuel : Nat) :
    readString opening (fuel + 1)
        (Literal.guardClosers ((high :: low :: codes).flatMap quoteCode) ++ '"' :: more)
      = withFirst (CodePoints.pair high low)
        (readString opening fuel (Literal.guardClosers (codes.flatMap quoteCode) ++ '"' :: more)) := by
  obtain ⟨first, second⟩ := quoteCode_halves both
  have open_ : Literal.guardClosers (codes.flatMap quoteCode) ++ '"' :: more ≠ [] := by simp
  have escaped := unicodeEscape?_pair open_ both
  rw [List.flatMap_cons, List.flatMap_cons, first, second,
    Literal.guardClosers_append_plain (plain_unicodeEscape high),
    Literal.guardClosers_append_plain (plain_unicodeEscape low), List.append_assoc, List.append_assoc]
  exact readString_unicode opening fuel escaped

-- Halves that stand together are read as their character. One step of the fuel is enough for each code
-- point, because none is written as nothing.
theorem readString_guarded (codes : CodePoints) (bounded : codes.Bounded) (opening more : Text)
    (fuel : Nat) (enough : codes.length < fuel) :
    readString opening fuel (Literal.guardClosers (codes.flatMap quoteCode) ++ '"' :: more)
      = .ok (CodePoints.joined codes, more) := by
  obtain ⟨fuel, rfl⟩ := Nat.exists_eq_add_of_lt enough
  clear enough
  fun_induction CodePoints.joined codes generalizing fuel with
  | case1 => rfl
  | case2 high low rest both ih =>
    have later := ih bounded.tail.tail (fuel + 1)
    have steps : (high :: low :: rest).length + fuel + 1 = rest.length + (fuel + 1) + 1 + 1 := by
      simp only [List.length_cons]
      omega
    rw [steps, readString_halves both, later]
    rfl
  | case3 code low rest apart ih =>
    have later := ih bounded.tail fuel
    have steps : (code :: low :: rest).length + fuel + 1 = (low :: rest).length + fuel + 1 + 1 := by
      simp only [List.length_cons]
      omega
    rw [steps, readString_alone bounded, later]
    · rfl
    · rintro _ _ same
      cases same
      exact Bool.eq_false_iff.mpr apart
  | case4 code =>
    have steps : [code].length + fuel + 1 = fuel + 1 + 1 := by
      simp only [List.length_singleton]
      omega
    rw [steps, readString_alone bounded]
    · rfl
    · rintro _ _ ⟨⟩

theorem quoteCode_ne_nil (code : Nat) : quoteCode code ≠ [] := by
  obtain ⟨c, _, same⟩ | ⟨_, same⟩ := quoteCode_cases code
  · have quoted := quoteChar_quoted c
    rw [same]
    generalize quoteChar c = written at quoted ⊢
    cases quoted <;> exact List.cons_ne_nil _ _
  · rw [same]
    exact List.cons_ne_nil _ _

theorem length_quoted (codes : CodePoints) : codes.length ≤ (codes.flatMap quoteCode).length := by
  induction codes with
  | nil => exact Nat.le_refl _
  | cons code rest ih =>
    have positive := List.length_pos_iff.mpr (quoteCode_ne_nil code)
    rw [List.flatMap_cons, List.length_append, List.length_cons]
    omega

-- A written literal is a document of its own: the string that it was written from, where halves that
-- stand together have become their character.
theorem read_writeCodes {codes : CodePoints} (bounded : codes.Bounded) :
    read (Literal.writeCodes codes) = .ok (ofCodePoints codes.joined) := by
  have enough : codes.length
      < (Literal.guardClosers (codes.flatMap quoteCode) ++ ['"']).length := by
    have written := Literal.length_guardClosers (codes.flatMap quoteCode)
    have quoted := length_quoted codes
    rw [List.length_append, List.length_singleton]
    omega
  have string : ∀ fuel, readValue (fuel + 1) (Literal.writeCodes codes)
      = .ok (ofCodePoints codes.joined, []) := by
    intro fuel
    rw [Literal.writeCodes_body, List.cons_append, readValue]
    dsimp only
    rw [readString_guarded codes bounded _ [] _ enough]
    rfl
  have gapless : skipGap (Literal.writeCodes codes) = Literal.writeCodes codes := by
    rw [Literal.writeCodes_body]
    rfl
  have marked : (Literal.writeCodes codes).head? ≠ some '\ufeff' := by
    rw [Literal.writeCodes_body]
    exact fun same => absurd (Option.some.inj same) (by decide)
  unfold read
  rw [if_neg (by simpa using marked), gapless, string]
  rfl

theorem ofCodePoints_ofText (text : Text) : ofCodePoints (CodePoints.ofText text) = .string text := by
  have whole : (CodePoints.ofText text).all (fun code => decide code.isValidChar) = true := by
    rw [List.all_eq_true]
    intro code among
    obtain ⟨c, _, rfl⟩ := List.mem_map.mp among
    exact decide_eq_true c.valid
  rw [ofCodePoints, if_pos whole, CodePoints.ofText, List.map_map]
  simp only [Function.comp_def, Char.ofNat_toNat, List.map_id']

-- Of a text nothing is joined.
theorem read_write (text : Text) : read (Literal.write text) = .ok (.string text) := by
  rw [Literal.write, read_writeCodes (CodePoints.bounded_ofText text), CodePoints.joined_ofText,
    ofCodePoints_ofText]

theorem natText_injective (same : natText first = natText second) : first = second := by
  have value : ∀ n, Nat.ofDigitChars 10 (natText n) 0 = n := fun n => Nat.ofDigitChars_ten_toDigits
  rw [← value first, same, value]

-- Text that does not go on with a digit.
def NotDigit (more : Text) : Prop := ∀ c, more.head? = some c → c.isDigit = false

theorem takeWhile_natText (n : Nat) (apart : NotDigit more) :
    (natText n ++ more).takeWhile Char.isDigit = natText n := by
  rw [List.takeWhile_append_of_pos (natText_digits n)]
  cases more with
  | nil => simp
  | cons c rest => rw [List.takeWhile_cons_of_neg (by simp [apart c rfl]), List.append_nil]

-- A number ends where its digits end.
theorem natText_cancel (left : NotDigit more) (right : NotDigit later)
    (same : natText m ++ more = natText n ++ later) : m = n ∧ more = later := by
  have digits := congrArg (List.takeWhile Char.isDigit) same
  rw [takeWhile_natText m left, takeWhile_natText n right] at digits
  rw [digits] at same
  exact ⟨natText_injective digits, List.append_cancel_left same⟩

theorem natText_ne_minus (n : Nat) (more later : Text) : natText n ++ more ≠ '-' :: later := by
  intro same
  obtain ⟨c, rest, digits⟩ := List.exists_cons_of_ne_nil (Nat.toDigits_ne_nil (n := n) (b := 10))
  have digit := natText_digits n c (by rw [natText, digits]; exact List.mem_cons_self)
  rw [natText, digits, List.cons_append] at same
  rw [(List.cons.inj same).1] at digit
  cases digit

theorem intText_cancel (left : NotDigit more) (right : NotDigit later)
    (same : intText m ++ more = intText n ++ later) : m = n ∧ more = later := by
  unfold intText at same
  split at same
  · split at same
    · obtain ⟨size, rest⟩ := natText_cancel left right (List.cons.inj same).2
      exact ⟨by omega, rest⟩
    · exact absurd same.symm (natText_ne_minus _ _ _)
  · split at same
    · exact absurd same (natText_ne_minus _ _ _)
    · obtain ⟨size, rest⟩ := natText_cancel left right same
      exact ⟨by omega, rest⟩

end Json

theorem Literal.writeCodes_joined (codes : CodePoints) : writeCodes codes.joined = writeCodes codes := by
  rw [writeCodes, Json.quoteCodes, Json.flatMap_joined]
  rfl

-- A literal ends where its closing quote stands, whatever follows.
theorem Literal.writeCodes_cancel {first second : CodePoints} (bounded : first.Bounded)
    (bounded' : second.Bounded) (same : writeCodes first ++ more = writeCodes second ++ later) :
    first.joined = second.joined ∧ more = later := by
  simp only [writeCodes_body, List.cons_append, List.append_assoc, List.nil_append] at same
  have one := Json.readString_guarded first bounded [] more (first.length + second.length + 1) (by omega)
  have other := Json.readString_guarded second bounded' [] later (first.length + second.length + 1)
    (by omega)
  rw [(List.cons.inj same).2, other] at one
  obtain ⟨joined, rest⟩ := Prod.mk.inj (Except.ok.inj one)
  exact ⟨joined.symm, rest.symm⟩

theorem Literal.write_cancel (same : write first ++ more = write second ++ later) :
    first = second ∧ more = later := by
  obtain ⟨joined, rest⟩ := writeCodes_cancel (CodePoints.bounded_ofText first)
    (CodePoints.bounded_ofText second) same
  rw [CodePoints.joined_ofText, CodePoints.joined_ofText] at joined
  exact ⟨CodePoints.ofText_injective joined, rest⟩

end ModuleBundler
