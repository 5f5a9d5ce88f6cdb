import ModuleBundler.Proofs.Bundle.Rows

/-!
Whether a module that is wrapped in a function stays inside it. The bundle is read with the tokens of
the masker: the function of a module ends at the brace that was put behind its code exactly if the
code, read behind an opening brace on its own, closes what it opens and nothing else.
-/
namespace ModuleBundler

namespace Bundle

open Masking

-- What stands between the braces of a wrapped module.
def inside (code : Text) : Text := '\n' :: withFinalNewline code

-- The pieces of a module behind the opening brace of its function, apart from everything else.
def insidePieces (code : Text) : List Piece := piecesFrom ⟨.mark '{', []⟩ (inside code)

-- Nothing that the code opens stays open, and it closes only what it opened.
def Contained (code : Text) : Prop :=
  settled (insidePieces code) = true ∧ nest [] (insidePieces code) = some []

instance (code : Text) : Decidable (Contained code) := inferInstanceAs (Decidable (_ ∧ _))

def Wrapped (code : Text) : Prop := isWellFormed (withFinalNewline code) = true

-- In the tokens of the whole text, no token crosses the end of the code, and the brace that closes
-- the brace in front of it is the one behind it.
def Isolated (front code back : Text) : Prop :=
  ∃ before within behind,
    pieces (front ++ '{' :: (code ++ '}' :: back))
      = before ++ ⟨.mark, ['{']⟩ :: (within ++ ⟨.mark, ['}']⟩ :: behind) ∧
    before.flatMap Piece.text = front ∧ within.flatMap Piece.text = code ∧
    nest [] within = some []

def row (asset : Asset) : Text := tableEntry asset (body .function asset.code)

def bannerText (hasBanner : Bool) : Graph → Text
  | [] => []
  | entry :: rest => if hasBanner then banner (rest.length + 1) entry else []

-- A bundle in front of the braces around a wrapped module, and behind them.
def frontOf (hasBanner : Bool) (before : Graph) (asset : Asset) (after : Graph) : Text :=
  bannerText hasBanner (before ++ asset :: after)
    ++ (tableOpening ++ ((before.map row).flatMap (· ++ [',', '\n']) ++ wrappedHead asset))

def backOf (asset : Asset) (after : Graph) : Text :=
  rowTail asset ++ ((after.map row).flatMap ([',', '\n'] ++ ·) ++ "\n\x7d, 0);\n".toList)

theorem body_of_wrapped (wrapped : Wrapped code) :
    body .function code = .function (withFinalNewline code) := by
  simp only [Wrapped] at wrapped
  simp [body, wrapped]

theorem tableEntries_outcome (format : BundleFormat) (graph : Graph) :
    (tableEntries format graph).outcome
      = .ok (graph.map fun asset => tableEntry asset (body format asset.code)) := by
  induction graph with
  | nil => rfl
  | cons asset graph ih =>
    have told : (bodyOf format asset).outcome = .ok (body format asset.code) := by
      unfold bodyOf
      dsimp only
      split <;> rfl
    rw [tableEntries, Logged.outcome_bind, told]
    change (tableEntries format graph >>= fun entries =>
      pure (tableEntry asset (body format asset.code) :: entries)).outcome = _
    rw [Logged.outcome_bind, ih]
    rfl

theorem emit_text (format : BundleFormat) (hasBanner : Bool) (entry : Asset) (rest : Graph) :
    (emit format hasBanner (entry :: rest)).outcome
      = .ok (bannerText hasBanner (entry :: rest) ++ (tableOpening
        ++ (Text.joinWith [',', '\n'] ((entry :: rest).map fun asset =>
            tableEntry asset (body format asset.code))
          ++ "\n\x7d, 0);\n".toList))) := by
  have separator : ",\n".toList = [',', '\n'] := by decide +kernel
  delta emit
  dsimp only
  rw [Logged.outcome_bind, tableEntries_outcome, separator]
  simp only [bind, Except.bind, Logged.outcome_pure, bannerText, tableOpening, List.length_cons,
    List.append_assoc]

theorem emit_around (hasBanner : Bool) (before after : Graph) (wrapped : Wrapped asset.code) :
    (emit .function hasBanner (before ++ asset :: after)).outcome
      = .ok (frontOf hasBanner before asset after ++ '{' :: (inside asset.code
        ++ '}' :: backOf asset after)) := by
  have entry : row asset = wrappedHead asset ++ '{' :: (inside asset.code ++ '}' :: rowTail asset) := by
    rw [row, body_of_wrapped wrapped, tableEntry_function]
    rfl
  obtain ⟨first, rest, graph⟩ := List.exists_cons_of_ne_nil
    (l := before ++ asset :: after) (List.append_ne_nil_of_right_ne_nil _ (List.cons_ne_nil _ _))
  have written := emit_text .function hasBanner first rest
  rw [← graph] at written
  refine written.trans ?_
  change Except.ok (_ ++ (_ ++ (Text.joinWith _ ((before ++ asset :: after).map row) ++ _))) = _
  rw [frontOf, List.map_append, List.map_cons, Text.joinWith_around, entry]
  simp only [backOf, List.append_assoc, List.cons_append]

theorem endsLine_inside (code : Text) : Lexeme.EndsLine (inside code) := by
  have ends : Lexeme.EndsLine (withFinalNewline code) := by
    unfold withFinalNewline
    split
    · rename_i complete
      obtain ⟨front, rfl⟩ := List.isSuffixOf_iff_suffix.mp complete
      simp [Lexeme.EndsLine]
    · simp [Lexeme.EndsLine]
  simp [Lexeme.EndsLine] at ends ⊢
  rw [inside, List.getLast?_cons, ends]
  rfl

theorem divides_inside (contained : Contained code) (calm : Calm start) :
    Divides (start.after .mark ['{']) (inside code) (insidePieces code) NotBlank ∧
      Calm (readThrough (start.after .mark ['{']) (insidePieces code)) := by
  obtain ⟨closed, nested⟩ := contained
  obtain ⟨count, conditions⟩ := calm
  have alike : Alike ⟨.mark '{', []⟩ (start.after .mark ['{']) := ⟨rfl, count, conditions⟩
  have same := piecesFrom_alike alike (inside code)
  have ends := endsLine_inside code
  constructor
  · refine ⟨piecesFrom_texts _ _, fun more apart => ?_⟩
    rw [insidePieces, ← same] at closed ⊢
    exact piecesFrom_append (.inr ends) closed apart
  · obtain ⟨_, count, below⟩ := readThrough_alike alike (insidePieces code)
    have level : (readThrough ⟨.mark '{', []⟩ (insidePieces code)).conditions.length = 0 :=
      nest_conditions nested rfl
    have none := List.length_eq_zero_iff.mp level
    exact ⟨count, by rw [below, none, List.nil_append]⟩

theorem begins_row (asset : Asset) : Begins (row asset) := by
  unfold row tableEntry
  simp only [List.append_assoc]
  exact (begins_literal _).append _

-- The row of a module that is embedded as a string, or stays inside its function.
theorem harmless_row (contained : Wrapped asset.code → Contained asset.code) :
    Harmless (row asset) Anything := by
  by_cases wrapped : Wrapped asset.code
  · rw [row, body_of_wrapped wrapped, tableEntry_function]
    have function : Harmless ('{' :: (inside asset.code ++ '}' :: rowTail asset)) Anything := by
      intro start calm
      obtain ⟨divides, calm'⟩ := divides_inside (contained wrapped) calm
      have closed := (harmless_rowTail asset).marked (c := '}') (by decide) (by decide)
      obtain ⟨behind, divides', calm''⟩ := closed _ calm'
      refine ⟨_, (divides_mark start (by decide)).append (divides.append divides' ?_) fun _ _ => trivial, ?_⟩
      · intro more _ c same
        cases same
        decide
      · rwa [readThrough_append, readThrough_append]
    refine (harmless_wrappedHead asset).append function ?_
    intro more _ c same
    cases same
    decide
  · have text : body .function asset.code = .string (withFinalNewline asset.code) := by
      simp only [Wrapped] at wrapped
      simp [body, wrapped]
    rw [row, text]
    exact harmless_string asset _

theorem harmless_rows (before : Graph)
    (contained : ∀ earlier ∈ before, Wrapped earlier.code → Contained earlier.code) :
    Harmless ((before.map row).flatMap (· ++ [',', '\n'])) NotBlank := by
  induction before with
  | nil => exact fun start calm => ⟨[], ⟨rfl, fun _ _ => rfl⟩, calm⟩
  | cons first before ih =>
    have later := ih fun earlier member => contained earlier (List.mem_cons_of_mem _ member)
    have separated : Harmless ([',', '\n'] ++ (before.map row).flatMap (· ++ [',', '\n'])) NotBlank := by
      refine Harmless.marked (c := ',') (by decide) (by decide)
        ((harmless_blank (c := '\n') (.inr rfl)).append later fun more apart => ?_)
      cases before with
      | nil => exact apart
      | cons next before =>
        rw [List.map_cons, List.flatMap_cons, List.append_assoc, List.append_assoc]
        exact (begins_row next).notBlank _
    rw [List.map_cons, List.flatMap_cons, List.append_assoc]
    exact (harmless_row (contained first List.mem_cons_self)).follow separated

theorem begins_table (before : Graph) (asset : Asset) :
    Begins ((before.map row).flatMap (· ++ [',', '\n']) ++ wrappedHead asset) := by
  cases before with
  | nil => exact (begins_literal _).append _
  | cons first before =>
    rw [List.map_cons, List.flatMap_cons, List.append_assoc, List.append_assoc]
    exact (begins_row first).append _

theorem tableOpening_parts : ∃ rest, tableOpening = '(' :: rest := by
  obtain ⟨_, _, _, head⟩ := tableOpening_read
  exact List.head?_eq_some_iff.mp head

theorem begins_tableOpening : Begins tableOpening := by
  obtain ⟨rest, parts⟩ := tableOpening_parts
  exact ⟨'(', rest, parts, by decide⟩

theorem hashbang?_front (hasBanner : Bool) (before : Graph) (asset : Asset) (after : Graph)
    (more : Text) : Lexeme.hashbang? (frontOf hasBanner before asset after ++ more) = none := by
  have other : ∀ c later, c ≠ '#' → Lexeme.hashbang? (c :: later) = none := by
    intro c later differs
    exact Lexeme.hashbang?.eq_2 _ (by simp [differs])
  obtain ⟨rest, parts⟩ := tableOpening_parts
  unfold frontOf bannerText
  rw [parts]
  split
  · exact other _ _ (by decide)
  · split
    · have opening : "/* minipack bundle: ".toList = '/' :: "* minipack bundle: ".toList := by
        decide +kernel
      delta banner
      rw [opening]
      exact other _ _ (by decide)
    · exact other _ _ (by decide)

-- The text in front of a wrapped module is divided in one way, if the modules before it are contained.
theorem divides_front (hasBanner : Bool) (before : Graph) (asset : Asset) (after : Graph)
    (contained : ∀ earlier ∈ before, Wrapped earlier.code → Contained earlier.code) :
    ∃ front, Divides {} (frontOf hasBanner before asset after) front NotBlank ∧
      Calm (readThrough {} front) := by
  obtain ⟨opening, divides, calm⟩ := divides_tableOpening
  have table := (harmless_rows before contained).append (harmless_wrappedHead asset)
    fun more _ => (begins_literal _).append _ |>.notBlank more
  obtain ⟨rows, divides', calm'⟩ := table _ calm
  have opened := divides.append divides' fun more _ => (begins_table before asset).notBlank more
  have calm'' : Calm (readThrough {} (opening ++ rows)) := by rwa [readThrough_append]
  unfold frontOf bannerText
  split
  · exact ⟨_, opened, calm''⟩
  · rename_i entry rest graph
    split
    · obtain ⟨comment, banner⟩ := divides_banner {} (rest.length + 1) entry
      refine ⟨_, banner.append opened fun more _ => ?_, calm''⟩
      exact (begins_tableOpening.append _).notBlank more
    · exact ⟨_, opened, calm''⟩

-- How a bundle is divided from the opening brace of a wrapped module on.
theorem pieces_around (hasBanner : Bool) (before : Graph) (asset : Asset) (after : Graph)
    (contained : ∀ earlier ∈ before, Wrapped earlier.code → Contained earlier.code) :
    ∃ front start, Calm start ∧
      front.flatMap Piece.text = frontOf hasBanner before asset after ∧
      ∀ more, pieces (frontOf hasBanner before asset after ++ '{' :: more)
        = front ++ ⟨.mark, ['{']⟩ :: piecesFrom (start.after .mark ['{']) more := by
  obtain ⟨front, divides, calm⟩ := divides_front hasBanner before asset after contained
  refine ⟨front, _, calm, divides.texts, fun more => ?_⟩
  have opened := (divides_mark (c := '{') (readThrough {} front) (by decide)).reads more trivial
  have apart : NotBlank ('{' :: more) := by
    intro c same
    cases same
    decide
  rw [pieces, hashbang?_front]
  dsimp only
  rw [divides.reads _ apart]
  exact congrArg _ opened

theorem notBlank_closing (more : Text) : NotBlank ('}' :: more) := by
  intro c same
  cases same
  decide

theorem isolated_of_contained (hasBanner : Bool) (before : Graph) (asset : Asset) (after : Graph)
    (earlier : ∀ earlier ∈ before, Wrapped earlier.code → Contained earlier.code)
    (contained : Contained asset.code) :
    Isolated (frontOf hasBanner before asset after) (inside asset.code) (backOf asset after) := by
  obtain ⟨front, start, calm, texts, around⟩ := pieces_around hasBanner before asset after earlier
  obtain ⟨divides, _⟩ := divides_inside contained calm
  obtain ⟨behind, closed⟩ : ∃ behind, piecesFrom (readThrough (start.after .mark ['{'])
      (insidePieces asset.code)) ('}' :: backOf asset after) = ⟨.mark, ['}']⟩ :: behind :=
    ⟨_, (divides_mark _ (by decide)).reads (backOf asset after) trivial⟩
  refine ⟨front, insidePieces asset.code, behind, ?_, texts, divides.texts, contained.2⟩
  rw [around, divides.reads _ (notBlank_closing _), closed]

-- How a module that is isolated in a bundle is divided together with what follows it.
theorem within_of_isolated (hasBanner : Bool) (before : Graph) (asset : Asset) (after : Graph)
    (earlier : ∀ earlier ∈ before, Wrapped earlier.code → Contained earlier.code)
    (isolated : Isolated (frontOf hasBanner before asset after) (inside asset.code)
      (backOf asset after)) :
    ∃ within behind : List Piece,
      piecesFrom ⟨.mark '{', []⟩ (inside asset.code ++ '}' :: backOf asset after) = within ++ behind ∧
      within.flatMap Piece.text = inside asset.code ∧ nest [] within = some [] := by
  obtain ⟨front, start, ⟨count, conditions⟩, texts, around⟩ :=
    pieces_around hasBanner before asset after earlier
  obtain ⟨before', within, behind, parts, texts', code, nested⟩ := isolated
  have nonempty := pieces_nonempty
    (frontOf hasBanner before asset after ++ '{' :: (inside asset.code ++ '}' :: backOf asset after))
  rw [parts] at nonempty
  rw [around] at parts
  obtain ⟨_, opened⟩ := parted_unique parts.symm nonempty (texts'.trans texts.symm)
  obtain ⟨_, same⟩ := List.cons.inj opened
  have alike : Alike ⟨.mark '{', []⟩ (start.after .mark ['{']) := ⟨rfl, count, conditions⟩
  rw [piecesFrom_alike alike] at same
  exact ⟨within, _, same.symm, code, nested⟩

theorem nested_of_isolated (hasBanner : Bool) (before : Graph) (asset : Asset) (after : Graph)
    (earlier : ∀ earlier ∈ before, Wrapped earlier.code → Contained earlier.code)
    (isolated : Isolated (frontOf hasBanner before asset after) (inside asset.code)
      (backOf asset after))
    (closed : settled (insidePieces asset.code) = true) :
    nest [] (insidePieces asset.code) = some [] := by
  obtain ⟨within, behind, parts, code, nested⟩ :=
    within_of_isolated hasBanner before asset after earlier isolated
  have nonempty := piecesFrom_nonempty ⟨.mark '{', []⟩ (inside asset.code ++ '}' :: backOf asset after)
  rw [parts] at nonempty
  rw [piecesFrom_append (.inr (endsLine_inside _)) closed (notBlank_closing _)] at parts
  obtain ⟨rfl, _⟩ := parted_unique parts.symm nonempty (code.trans (piecesFrom_texts _ _).symm)
  exact nested

-- If what follows closes everything that may be open, a module that leaves something open gets out.
theorem settled_of_isolated (hasBanner : Bool) (before : Graph) (asset : Asset) (after : Graph)
    (earlier : ∀ earlier ∈ before, Wrapped earlier.code → Contained earlier.code)
    (isolated : Isolated (frontOf hasBanner before asset after) (inside asset.code)
      (backOf asset after))
    (closes : Closes ('}' :: backOf asset after)) : settled (insidePieces asset.code) = true := by
  obtain ⟨within, behind, parts, code, _⟩ :=
    within_of_isolated hasBanner before asset after earlier isolated
  refine Bool.not_eq_false _ ▸ fun unsettled => ?_
  obtain ⟨passed, piece, later, crossing, starts, reaches⟩ :=
    piecesFrom_crosses (.inr (endsLine_inside asset.code)) unsettled (notBlank_closing _) closes
  rw [parts] at crossing
  rw [← code] at starts reaches
  have stops := parted_uncrossed crossing starts
  omega

-- A specifier that closes every literal and every comment that may be open in front of it.
def closingSpecifier : Text := "\x7d\x7d\x60\x7d\x60'*/".toList

theorem closes_back (code : Text) :
    Closes ('}' :: backOf ⟨0, [], [], code, [(closingSpecifier, 0)]⟩ []) := by
  have back : '}' :: backOf ⟨0, [], [], code, [(closingSpecifier, 0)]⟩ []
      = '}' :: (([','] ++ ([' '] ++ (mappingText [(closingSpecifier, 0)] ++ [']']))) ++ ([]
        ++ "\n\x7d, 0);\n".toList)) := rfl
  rw [back]
  constructor
  · rintro quote (rfl | rfl)
    · decide +kernel
    · decide +kernel
  · rintro (_ | _ | _ | _) <;> decide +kernel
  · decide +kernel

-- A wrapped module stays inside its function, wherever it stands among modules that do, exactly if
-- its code is contained.
theorem wrapped_isolated_iff (wrapped : Wrapped code) :
    Contained code ↔ ∀ (hasBanner : Bool) (before : Graph) (asset : Asset) (after : Graph),
      asset.code = code →
      (∀ earlier ∈ before, Wrapped earlier.code → Contained earlier.code) →
      (emit .function hasBanner (before ++ asset :: after)).outcome
        = .ok (frontOf hasBanner before asset after ++ '{' :: (inside code
          ++ '}' :: backOf asset after)) ∧
      Isolated (frontOf hasBanner before asset after) (inside code) (backOf asset after) := by
  constructor
  · rintro contained hasBanner before asset after rfl earlier
    exact ⟨emit_around hasBanner before after wrapped,
      isolated_of_contained hasBanner before asset after earlier contained⟩
  · intro everywhere
    have alone : ∀ earlier ∈ ([] : Graph), Wrapped earlier.code → Contained earlier.code := nofun
    obtain ⟨_, isolated⟩ := everywhere false [] ⟨0, [], [], code, [(closingSpecifier, 0)]⟩ [] rfl alone
    have closed := settled_of_isolated _ _ ⟨0, [], [], code, _⟩ _ alone isolated (closes_back code)
    exact ⟨closed, nested_of_isolated _ _ ⟨0, [], [], code, _⟩ _ alone isolated closed⟩

def bracedCode : Text := "if (a) /\x7d/.test(\"\x7d\"); // \x7d\n".toList

theorem bracedCode_isolated :
    Wrapped bracedCode ∧ Contained bracedCode ∧
      Isolated (frontOf true [⟨0, [], [], bracedCode, []⟩] ⟨1, [], [], bracedCode, []⟩ []) (inside bracedCode)
        (backOf ⟨1, [], [], bracedCode, []⟩ []) := by
  have ⟨wrapped, contained⟩ : Wrapped bracedCode ∧ Contained bracedCode := by
    unfold Wrapped bracedCode
    rw [String.toList_ofList]
    decide +kernel
  refine ⟨wrapped, contained, ?_⟩
  refine ((wrapped_isolated_iff wrapped).mp contained true [⟨0, [], [], bracedCode, []⟩] _ [] rfl ?_).2
  intro earlier member _
  cases List.mem_singleton.mp member
  exact contained

-- An interpreter line is one only at the very start of a file. Behind the brace of the function the
-- same line is read as code, and its brace closes the function.
def hashbangModule : Asset := ⟨0, "/entry.js".toList, [], "#!\x7d\n".toList, []⟩

theorem hashbang_not_isolated :
    Wrapped hashbangModule.code ∧
      (emit .function false [hashbangModule]).outcome
        = .ok (frontOf false [] hashbangModule [] ++ '{' :: (inside hashbangModule.code
          ++ '}' :: backOf hashbangModule [])) ∧
      ¬ Isolated (frontOf false [] hashbangModule []) (inside hashbangModule.code)
        (backOf hashbangModule []) := by
  have ⟨wrapped, closed, escapes⟩ : Wrapped hashbangModule.code ∧
      settled (insidePieces hashbangModule.code) = true ∧ nest [] (insidePieces hashbangModule.code) = none := by
    unfold Wrapped
    decide +kernel
  refine ⟨wrapped, emit_around false [] [] wrapped, fun isolated => ?_⟩
  have nested := nested_of_isolated false [] hashbangModule [] nofun isolated closed
  rw [escapes] at nested
  cases nested

end Bundle
end ModuleBundler
