import Mathlib.Tactic.Common
import Saffui.Authz.Relations.Grammar

/-!
# Lexemes and the tokens of a text

`readLexemes` reads exactly the tokens a text is made of: what it answers is
`Lexed`, and it answers on every text that is. A text laid out from tokens,
with any blanks, line breaks and comments between them, is made of these
tokens.
-/

namespace Saffui.Authz.Relations

/-- The tokens of lexemes, their lines left out. -/
def tokensOf (lexemes : List Lexeme) : List Token := lexemes.map (·.token)

@[simp]
theorem tokensOf_nil : tokensOf [] = [] := rfl

@[simp]
theorem tokensOf_cons (lexeme : Lexeme) (rest : List Lexeme) :
    tokensOf (lexeme :: rest) = lexeme.token :: tokensOf rest := rfl

@[simp]
theorem tokensOf_append (first second : List Lexeme) :
    tokensOf (first ++ second) = tokensOf first ++ tokensOf second := List.map_append

section Characters

variable {character : Char}

theorem nameCharacter_toNat (named : isNameCharacter character = true) :
    0x30 ≤ character.toNat ∧ character.toNat ≤ 0x7a := by
  simp only [isNameCharacter, Text.isAsciiAlphanumeric, Text.isAsciiLowercase,
    Text.isAsciiUppercase, Text.isAsciiDigit, Bool.or_eq_true, Bool.and_eq_true,
    decide_eq_true_eq, beq_iff_eq, Char.le_def, UInt32.le_iff_toNat_le] at named
  rcases named with ((within | within) | within) | rfl
  · exact ⟨le_trans (by decide) within.1, within.2⟩
  · exact ⟨le_trans (by decide) within.1, le_trans within.2 (by decide)⟩
  · exact ⟨within.1, le_trans within.2 (by decide)⟩
  · decide

theorem not_nameCharacter_of_whitespace (white : Text.isWhitespace character = true) :
    isNameCharacter character = false := by
  by_contra named
  rw [Bool.not_eq_false] at named
  have range := nameCharacter_toNat named
  simp only [Text.isWhitespace, Text.within, Bool.or_eq_true, Bool.and_eq_true,
    decide_eq_true_eq] at white
  omega

theorem mark_class (known : character ∈ MARKS) :
    isNameCharacter character = false ∧ Text.isWhitespace character = false := by
  simp only [MARKS, List.mem_cons, List.not_mem_nil, or_false] at known
  rcases known with rfl | rfl | rfl | rfl | rfl | rfl | rfl | rfl | rfl | rfl <;> decide

theorem nameCharacter_ne (named : isNameCharacter character = true) :
    character ≠ '/' ∧ character ≠ '\n' ∧ character ≠ '\r' := by
  refine ⟨?_, ?_, ?_⟩ <;> rintro rfl <;> revert named <;> decide

theorem whitespace_ne_slash (white : Text.isWhitespace character = true) : character ≠ '/' := by
  rintro rfl
  revert white
  decide

theorem mark_ne (known : character ∈ MARKS) :
    character ≠ '/' ∧ character ≠ '\n' ∧ character ≠ '\r' := by
  refine ⟨?_, ?_, ?_⟩ <;> rintro rfl <;> revert known <;> decide

theorem showable_ne (showable : Text.isUnshowable character = false) :
    character ≠ '\n' ∧ character ≠ '\r' := by
  refine ⟨?_, ?_⟩ <;> rintro rfl <;> revert showable <;> decide

/-- What names and marks are made of can be shown: nothing below U+00AD but
controls cannot. -/
theorem showable_of_toNat (lower : 0x20 ≤ character.toNat) (upper : character.toNat ≤ 0x7e) :
    Text.isUnshowable character = false := by
  simp only [Text.isUnshowable, Text.isControl, Text.within, Text.UNSHOWABLE, List.any_cons,
    List.any_nil, Bool.or_eq_false_iff, Bool.and_eq_false_iff, decide_eq_false_iff_not, and_true]
  and_intros <;> omega

theorem showable_of_nameCharacter (named : isNameCharacter character = true) :
    Text.isUnshowable character = false := by
  have range := nameCharacter_toNat named
  exact showable_of_toNat (by omega) (by omega)

theorem showable_of_mark (known : character ∈ MARKS) : Text.isUnshowable character = false := by
  simp only [MARKS, List.mem_cons, List.not_mem_nil, or_false] at known
  rcases known with rfl | rfl | rfl | rfl | rfl | rfl | rfl | rfl | rfl | rfl <;> decide

end Characters

section Line

variable {line : Nat} {name text : List Char}

theorem lexedLine_endName {tokens : List Token}
    (named : ∀ character ∈ name, isNameCharacter character = true) (ends : EndsName text)
    (lexed : LexedLine text tokens) :
    LexedLine (name.reverse ++ text) (tokensOf (readLine.endName line name) ++ tokens) := by
  cases name with
  | nil => exact lexed
  | cons last before =>
    exact LexedLine.name (by simp) (by simpa [or_comm] using named) ends lexed

/-- The lexemes of a line are its tokens, the name being read before them. -/
theorem lexedLine_of_readLine (named : ∀ character ∈ name, isNameCharacter character = true)
    {lexemes : List Lexeme} (read : readLine line name text = .ok lexemes) :
    LexedLine (name.reverse ++ text) (tokensOf lexemes) := by
  induction text generalizing name lexemes with
  | nil =>
    obtain rfl := Except.ok.inj read
    simpa using @lexedLine_endName line name [] [] named (by simp [EndsName]) .nil
  | cons character rest ih =>
    unfold readLine at read
    split at read
    · next here =>
      have more := @ih (character :: name) (by simpa [here] using named) _ read
      simpa using more
    · next other =>
      have ends : EndsName (character :: rest) := by simpa [EndsName] using other
      split at read
      · next white =>
        cases tail : readLine line [] rest with
        | error fault => rw [tail] at read; cases read
        | ok more =>
          rw [tail] at read
          obtain rfl := Except.ok.inj read
          rw [tokensOf_append]
          exact lexedLine_endName named ends (.blank white (by simpa using ih (by simp) tail))
      · split at read
        · next known =>
          cases tail : readLine line [] rest with
          | error fault => rw [tail] at read; cases read
          | ok more =>
            rw [tail] at read
            obtain rfl := Except.ok.inj read
            rw [tokensOf_append, tokensOf_cons]
            exact lexedLine_endName named ends (.mark known (by simpa using ih (by simp) tail))
        · cases read

theorem readLine_append (named : ∀ character ∈ text, isNameCharacter character = true)
    (rest : List Char) :
    readLine line name (text ++ rest) = readLine line (text.reverse ++ name) rest := by
  induction text generalizing name with
  | nil => rfl
  | cons character text ih =>
    rw [List.cons_append, readLine, if_pos (named character (by simp)),
      ih fun other inside => named other (List.mem_cons_of_mem _ inside)]
    simp

/-- A name is over where the text does not go on with it. -/
theorem readLine_of_ends (ends : EndsName text) {lexemes : List Lexeme}
    (read : readLine line [] text = .ok lexemes) :
    readLine line name text = .ok (readLine.endName line name ++ lexemes) := by
  cases text with
  | nil =>
    obtain rfl := Except.ok.inj read
    simp [readLine, readLine.endName]
  | cons character rest =>
    have other : ¬ isNameCharacter character = true := by
      simpa [EndsName] using ends
    unfold readLine at read ⊢
    rw [if_neg other] at read ⊢
    split at read
    · next white =>
      rw [if_pos white]
      cases tail : readLine line [] rest with
      | error fault => rw [tail] at read; cases read
      | ok more =>
        rw [tail] at read
        obtain rfl := Except.ok.inj read
        rfl
    · next dark =>
      rw [if_neg dark]
      split at read
      · next known =>
        rw [if_pos known]
        cases tail : readLine line [] rest with
        | error fault => rw [tail] at read; cases read
        | ok more =>
          rw [tail] at read
          obtain rfl := Except.ok.inj read
          rfl
      · cases read

theorem readLine_of_lexedLine {tokens : List Token} (lexed : LexedLine text tokens) :
    ∃ lexemes, readLine line [] text = .ok lexemes ∧ tokensOf lexemes = tokens := by
  induction lexed with
  | nil => exact ⟨[], rfl, rfl⟩
  | blank white _ ih =>
    obtain ⟨lexemes, read, same⟩ := ih
    refine ⟨lexemes, ?_, same⟩
    rw [readLine, if_neg (by simp [not_nameCharacter_of_whitespace white]), if_pos white, read]
    rfl
  | @mark character rest _ known _ ih =>
    obtain ⟨lexemes, read, same⟩ := ih
    obtain ⟨unnamed, dark⟩ := mark_class known
    refine ⟨⟨.mark character, line⟩ :: lexemes, ?_, by simp [same]⟩
    rw [readLine, if_neg (by simp [unnamed]), if_neg (by simp [dark]), if_pos known, read]
    rfl
  | @name name rest _ some named ends _ ih =>
    obtain ⟨lexemes, read, same⟩ := ih
    refine ⟨readLine.endName line name.reverse ++ lexemes, ?_, ?_⟩
    · rw [readLine_append named, List.append_nil]
      exact readLine_of_ends ends read
    · cases name with
      | nil => exact absurd rfl some
      | cons first more => simp [readLine.endName, same]

end Line

/-- What the lexer reads is what the text is made of. -/
theorem lexedLines_of_readLines {texts : List (List Char)} {line : Nat} {lexemes : List Lexeme}
    (read : readLines line texts = .ok lexemes) : LexedLines texts (tokensOf lexemes) := by
  induction texts generalizing line lexemes with
  | nil =>
    obtain rfl := Except.ok.inj read
    exact .nil
  | cons text rest ih =>
    unfold readLines at read
    split at read
    · cases read
    · next showable =>
      cases here : readLine line [] (dropComment text) with
      | error fault => rw [here] at read; cases read
      | ok first =>
        cases there : readLines (line + 1) rest with
        | error fault => rw [here, there] at read; cases read
        | ok more =>
          rw [here, there] at read
          obtain rfl := Except.ok.inj read
          rw [tokensOf_append]
          refine .line ?_ (by simpa using lexedLine_of_readLine (by simp) here) (ih there)
          simpa using List.find?_eq_none.mp showable

theorem readLines_of_lexedLines {texts : List (List Char)} {tokens : List Token}
    (lexed : LexedLines texts tokens) (line : Nat) :
    ∃ lexemes, readLines line texts = .ok lexemes ∧ tokensOf lexemes = tokens := by
  induction lexed generalizing line with
  | nil => exact ⟨[], rfl, rfl⟩
  | @line text rest _ _ showable code _ ih =>
    obtain ⟨first, here, firstSame⟩ := @readLine_of_lexedLine line _ _ code
    obtain ⟨more, there, moreSame⟩ := ih (line + 1)
    refine ⟨first ++ more, ?_, by rw [tokensOf_append, firstSame, moreSame]⟩
    have shown : text.find? Text.isUnshowable = none :=
      List.find?_eq_none.mpr (by simpa using showable)
    rw [readLines, shown]
    simp only [here, there]
    rfl

/-- `readLexemes` reads exactly the tokens a text is made of. -/
theorem lexed_iff_readLexemes (source : String) (tokens : List Token) :
    Lexed source.toList tokens ↔
      ∃ lexemes, readLexemes source = .ok lexemes ∧ tokensOf lexemes = tokens := by
  constructor
  · intro lexed
    exact readLines_of_lexedLines lexed 1
  · rintro ⟨lexemes, read, rfl⟩
    exact lexedLines_of_readLines read

section Layout

variable {rest : List Char} {tokens : List Token}

theorem lines_cons {character : Char} (feed : character ≠ '\n') (returned : character ≠ '\r') :
    Text.lines (character :: rest) =
      match Text.lines rest with
      | [] => [[character]]
      | line :: more => (character :: line) :: more := by
  exact Text.lines.eq_4 character rest (fun _ same _ => returned same) feed

/-- The first line of a text and the lines after it, the first of an empty
text being empty. -/
def firstLine (text : List Char) : List Char := (Text.lines text).headD []

theorem lexedLine_nil {tokens : List Token} (lexed : LexedLine [] tokens) : tokens = [] := by
  generalize empty : ([] : List Char) = text at lexed
  cases lexed with
  | nil => rfl
  | blank | mark => cases empty
  | name some => simp [some] at empty

/-- A text is made of its first line and the others. -/
theorem lexed_iff_firstLine : Lexed rest tokens ↔ ∃ here more, tokens = here ++ more ∧
    (∀ character ∈ firstLine rest, Text.isUnshowable character = false) ∧
    LexedLine (dropComment (firstLine rest)) here ∧ LexedLines (Text.lines rest).tail more := by
  unfold Lexed firstLine
  cases Text.lines rest with
  | nil =>
    constructor
    · rintro ⟨⟩
      exact ⟨[], [], rfl, by simp, .nil, .nil⟩
    · rintro ⟨here, more, rfl, -, code, others⟩
      cases others
      rw [lexedLine_nil code]
      exact .nil
  | cons line more =>
    constructor
    · intro lexed
      cases lexed with
      | line showable code lines => exact ⟨_, _, rfl, showable, code, lines⟩
    · rintro ⟨here, others, rfl, showable, code, lines⟩
      exact .line showable code lines

/-- Characters that stand before a text stand before its first line. -/
theorem lexed_prepend (before : List Char) (here : List Token)
    (plain : ∀ character ∈ before, character ≠ '\n' ∧ character ≠ '\r')
    (showable : ∀ character ∈ before, Text.isUnshowable character = false)
    (joins : ∀ tokens, LexedLine (dropComment (firstLine rest)) tokens →
      LexedLine (dropComment (before ++ firstLine rest)) (here ++ tokens))
    (lexed : Lexed rest tokens) : Lexed (before ++ rest) (here ++ tokens) := by
  obtain ⟨first, more, rfl, shown, code, others⟩ := lexed_iff_firstLine.mp lexed
  cases before with
  | nil =>
    have joined := joins first code
    refine lexed_iff_firstLine.mpr ⟨here ++ first, more, by simp, shown, joined, others⟩
  | cons character before =>
    have split : ∀ (head : Char) (tail : List Char), (∀ one ∈ head :: tail, one ≠ '\n' ∧ one ≠ '\r') →
        Text.lines (head :: tail ++ rest) =
          (head :: tail ++ firstLine rest) :: (Text.lines rest).tail := by
      intro head tail ordinary
      induction tail generalizing head with
      | nil =>
        rw [List.cons_append, List.nil_append, lines_cons (ordinary head (by simp)).1
          (ordinary head (by simp)).2]
        unfold firstLine
        cases Text.lines rest <;> rfl
      | cons next tail ih =>
        rw [List.cons_append, lines_cons (ordinary head (by simp)).1 (ordinary head (by simp)).2,
          ih next fun one inside => ordinary one (List.mem_cons_of_mem _ inside)]
        rfl
    have whole := split character before plain
    refine lexed_iff_firstLine.mpr ⟨here ++ first, more, by simp, ?_, ?_, ?_⟩
    · rw [firstLine, whole]
      intro one inside
      rcases List.mem_append.mp inside with front | back
      · exact showable one front
      · exact shown one back
    · rw [firstLine, whole]
      exact joins first code
    · rw [whole]
      exact others

theorem dropComment_cons {character : Char} (other : character ≠ '/') (text : List Char) :
    dropComment (character :: text) = character :: dropComment text := by
  rw [dropComment]
  exact fun _ same _ => other same

theorem dropComment_append {before : List Char} (others : ∀ character ∈ before, character ≠ '/')
    (text : List Char) : dropComment (before ++ text) = before ++ dropComment text := by
  induction before with
  | nil => rfl
  | cons character before ih =>
    rw [List.cons_append, dropComment_cons (others character (by simp)),
      ih fun other inside => others other (List.mem_cons_of_mem _ inside), List.cons_append]

theorem firstLine_head? (text : List Char) :
    firstLine text = [] ∨ (firstLine text).head? = text.head? := by
  unfold firstLine Text.lines
  split
  · exact Or.inl rfl
  · exact Or.inl rfl
  · exact Or.inl rfl
  · split <;> exact Or.inr rfl

/-- A name is over in its line where it is over in the text. -/
theorem endsName_firstLine (ends : EndsName rest) : EndsName (dropComment (firstLine rest)) := by
  have code : ∀ line : List Char, EndsName line → EndsName (dropComment line) := by
    intro line ended
    cases line with
    | nil => exact ended
    | cons character line =>
      unfold dropComment
      split
      · simp [EndsName]
      · next same =>
        obtain ⟨rfl, rfl⟩ := List.cons.inj same
        simpa [EndsName] using ended
      · next impossible => cases impossible
  rcases firstLine_head? rest with empty | same
  · rw [empty]
    simp [dropComment, EndsName]
  · apply code
    rwa [EndsName, same]

theorem lexed_blank {character : Char} (white : Text.isWhitespace character = true)
    (showable : Text.isUnshowable character = false) (lexed : Lexed rest tokens) :
    Lexed (character :: rest) tokens := by
  refine lexed_prepend [character] [] ?_ ?_ ?_ lexed
  · simpa using showable_ne showable
  · simpa using showable
  · intro tokens code
    rw [dropComment_append (by simpa using whitespace_ne_slash white)]
    exact .blank white code

theorem lexed_mark {character : Char} (known : character ∈ MARKS) (lexed : Lexed rest tokens) :
    Lexed (character :: rest) (.mark character :: tokens) := by
  refine lexed_prepend [character] [.mark character] ?_ ?_ ?_ lexed
  · simpa using (mark_ne known).2
  · simpa using showable_of_mark known
  · intro tokens code
    rw [dropComment_append (by simpa using (mark_ne known).1)]
    exact .mark known code

theorem lexed_name {name : String} (some : name.toList ≠ [])
    (named : ∀ character ∈ name.toList, isNameCharacter character = true)
    (apart : EndsName rest) (lexed : Lexed rest tokens) :
    Lexed (name.toList ++ rest) (.name name :: tokens) := by
  refine lexed_prepend _ [.name name] ?_ ?_ ?_ lexed
  · exact fun character inside => (nameCharacter_ne (named character inside)).2
  · exact fun character inside => showable_of_nameCharacter (named character inside)
  · intro tokens code
    rw [dropComment_append fun character inside => (nameCharacter_ne (named character inside)).1]
    simpa using LexedLine.name some named (endsName_firstLine apart) code

theorem lexed_break {ending : List Char} (breaks : LineBreak ending) (lexed : Lexed rest tokens) :
    Lexed (ending ++ rest) tokens := by
  cases breaks with
  | feed => exact @LexedLines.line [] _ [] _ (by simp) .nil lexed
  | returned => exact @LexedLines.line [] _ [] _ (by simp) .nil lexed

theorem lexed_comment {text : List Char}
    (showable : ∀ character ∈ text, Text.isUnshowable character = false)
    (ended : firstLine rest = []) (lexed : Lexed rest tokens) :
    Lexed ('/' :: '/' :: text ++ rest) tokens := by
  refine lexed_prepend ('/' :: '/' :: text) [] ?_ ?_ ?_ lexed
  · intro character inside
    rcases List.mem_cons.mp inside with rfl | inside
    · decide
    rcases List.mem_cons.mp inside with rfl | inside
    · decide
    exact showable_ne (showable character inside)
  · intro character inside
    rcases List.mem_cons.mp inside with rfl | inside
    · decide
    rcases List.mem_cons.mp inside with rfl | inside
    · decide
    exact showable character inside
  · intro tokens code
    rw [ended] at code ⊢
    exact code

theorem lexed_gap {gap : List Char} (between : Gap gap) (lexed : Lexed rest tokens) :
    Lexed (gap ++ rest) tokens := by
  induction between with
  | nil => exact lexed
  | blank white showable _ ih => exact lexed_blank white showable ih
  | line breaks _ ih =>
    rw [List.append_assoc]
    exact lexed_break breaks ih
  | comment showable breaks _ ih =>
    have broken := lexed_break breaks ih
    rw [List.append_assoc, List.append_assoc]
    refine lexed_comment showable ?_ broken
    cases breaks <;> rfl

/-- A text laid out from tokens is made of them. -/
theorem lexed_of_layout {text : List Char} (laid : Layout tokens text) : Lexed text tokens := by
  induction laid with
  | done last =>
    cases last with
    | gap between => simpa using @lexed_gap [] _ _ between .nil
    | comment before showable =>
      refine lexed_gap before ?_
      simpa using @lexed_comment [] _ _ showable rfl .nil
  | mark before known _ ih => exact lexed_gap before (lexed_mark known ih)
  | name before some named apart _ ih => exact lexed_gap before (lexed_name some named apart ih)

end Layout

end Saffui.Authz.Relations
