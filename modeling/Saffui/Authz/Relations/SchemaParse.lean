import Saffui.Authz.Relations.SchemaLex

/-!
# The parser and the grammar

The parser reads what the grammar derives and nothing else. Each reading is
shown in two halves: `Sound`, what it read derives from the tokens it took;
and `Complete`, it reads every derivation whose tokens are followed by none
that would go on with it. The halves of the descent into parentheses go by
the depth that is left, together with the counter of the parser.
-/

namespace Saffui.Authz.Relations

mutual

def Expression.formula : Expression → Formula
  | .member name _ => .member name
  | .arrow named relation _ => .arrow named relation
  | .union terms => .any (Expression.formulas terms)
  | .intersection terms => .all (Expression.formulas terms)

def Expression.formulas : List Expression → List Formula
  | [] => []
  | term :: terms => term.formula :: Expression.formulas terms

end

theorem Expression.formulas_eq_map (terms : List Expression) :
    Expression.formulas terms = terms.map Expression.formula := by
  induction terms with
  | nil => rfl
  | cons term terms ih => rw [Expression.formulas, ih, List.map_cons]

def Declaration.clause : Declaration → Clause
  | .relation name _ subjects => .relation name (subjects.map WrittenSubject.allowed)
  | .permission name _ expression => .permission name expression.formula

def Definition.typeClauses (definition : Definition) : TypeClauses :=
  ⟨definition.name, definition.declarations.map Declaration.clause⟩

/-- The schema that is meant by definitions. -/
def abstractOf (definitions : List Definition) : AbstractSchema :=
  definitions.map Definition.typeClauses

section Readings

variable {α β : Type} {parser after : Parser}

@[simp]
theorem Parsed.bind_apply (first : Parsed α) (next : α → Parsed β) (parser : Parser) :
    (first >>= next) parser = match first parser with
      | .ok (value, after) => next value after
      | .error fault => .error fault := rfl

@[simp]
theorem Parsed.pure_apply (value : α) (parser : Parser) :
    (Pure.pure value : Parsed α) parser = .ok (value, parser) := rfl

@[simp]
theorem Parsed.get_bind (next : Parser → Parsed β) (parser : Parser) :
    (Parsed.get >>= next) parser = next parser parser := rfl

@[simp]
theorem Parsed.modify_bind (change : Parser → Parser) (next : Unit → Parsed β)
    (parser : Parser) : (Parsed.modify change >>= next) parser = next () (change parser) := rfl

@[simp]
theorem advance_bind (next : Unit → Parsed β) (parser : Parser) :
    (advance >>= next) parser = next () { parser with lexemes := parser.lexemes.tail } := rfl

theorem Parsed.bind_eq_ok {first : Parsed α} {next : α → Parsed β} {value : β}
    (read : (first >>= next) parser = .ok (value, after)) :
    ∃ middle between, first parser = .ok (middle, between) ∧
      next middle between = .ok (value, after) := by
  rw [Parsed.bind_apply] at read
  split at read
  · next middle between ran => exact ⟨middle, between, ran, read⟩
  · cases read

theorem Parsed.pure_eq_ok {given value : α}
    (read : (Pure.pure given : Parsed α) parser = .ok (value, after)) :
    value = given ∧ after = parser := by
  rw [Parsed.pure_apply, Except.ok.injEq, Prod.mk.injEq] at read
  exact ⟨read.1.symm, read.2.symm⟩

/-- The parser with other lexemes left. -/
def Parser.at (parser : Parser) (lexemes : List Lexeme) : Parser :=
  { parser with lexemes := lexemes }

@[simp]
theorem Parser.at_lexemes (parser : Parser) (lexemes : List Lexeme) :
    (parser.at lexemes).lexemes = lexemes := rfl

@[simp]
theorem Parser.at_nesting (parser : Parser) (lexemes : List Lexeme) :
    (parser.at lexemes).nesting = parser.nesting := rfl

@[simp]
theorem Parser.at_at (parser : Parser) (first second : List Lexeme) :
    (parser.at first).at second = parser.at second := rfl

theorem tokensOf_eq_cons {lexemes : List Lexeme} {token : Token} {tokens : List Token}
    (same : tokensOf lexemes = token :: tokens) :
    ∃ line left, lexemes = ⟨token, line⟩ :: left ∧ tokensOf left = tokens := by
  cases lexemes with
  | nil => cases same
  | cons lexeme left =>
    obtain ⟨rfl, rfl⟩ := List.cons.inj same
    exact ⟨lexeme.line, left, rfl, rfl⟩

theorem isMark_iff (parser : Parser) (mark : Char) :
    parser.isMark mark = true ↔ (tokensOf parser.lexemes).head? = some (.mark mark) := by
  unfold Parser.isMark
  split
  · next found line rest taken => simp [taken]
  · next other =>
    cases lexemes : parser.lexemes with
    | nil => simp
    | cons lexeme rest =>
      obtain ⟨token, line⟩ := lexeme
      cases token with
      | name text => simp
      | mark found => exact absurd lexemes (other found line rest)

theorem isWord_iff (parser : Parser) (word : String) :
    parser.isWord word = true ↔ (tokensOf parser.lexemes).head? = some (.name word) := by
  unfold Parser.isWord
  split
  · next found line rest taken => simp [taken]
  · next other =>
    cases lexemes : parser.lexemes with
    | nil => simp
    | cons lexeme rest =>
      obtain ⟨token, line⟩ := lexeme
      cases token with
      | name text => exact absurd lexemes (other text line rest)
      | mark found => simp

theorem lexemes_of_isMark {mark : Char} (here : parser.isMark mark = true) :
    ∃ line left, parser.lexemes = ⟨.mark mark, line⟩ :: left := by
  have head := (isMark_iff parser mark).mp here
  cases lexemes : parser.lexemes with
  | nil => simp [lexemes] at head
  | cons lexeme left =>
    obtain ⟨token, line⟩ := lexeme
    obtain rfl : token = .mark mark := by simpa [lexemes] using head
    exact ⟨line, left, rfl⟩

theorem lexemes_of_isWord {word : String} (here : parser.isWord word = true) :
    ∃ line left, parser.lexemes = ⟨.name word, line⟩ :: left := by
  have head := (isWord_iff parser word).mp here
  cases lexemes : parser.lexemes with
  | nil => simp [lexemes] at head
  | cons lexeme left =>
    obtain ⟨token, line⟩ := lexeme
    obtain rfl : token = .name word := by simpa [lexemes] using head
    exact ⟨line, left, rfl⟩

theorem takeName_eq_ok {what : String} {value : String × Nat}
    (read : takeName what parser = .ok (value, after)) :
    ∃ left, parser.lexemes = ⟨.name value.1, value.2⟩ :: left ∧ after = parser.at left := by
  unfold takeName at read
  split at read
  · next name line rest taken =>
    rw [Except.ok.injEq, Prod.mk.injEq] at read
    obtain ⟨rfl, rfl⟩ := read
    exact ⟨rest, taken, rfl⟩
  · cases read

theorem takeName_of_cons {what name : String} {line : Nat} {left : List Lexeme}
    (here : parser.lexemes = ⟨.name name, line⟩ :: left) :
    takeName what parser = .ok ((name, line), parser.at left) := by
  unfold takeName
  rw [here]
  rfl

theorem takeMark_eq_ok {mark : Char} {value : Unit}
    (read : takeMark mark parser = .ok (value, after)) :
    ∃ line left, parser.lexemes = ⟨.mark mark, line⟩ :: left ∧ after = parser.at left := by
  unfold takeMark at read
  rw [Parsed.get_bind] at read
  split at read
  · next here =>
    obtain ⟨line, left, taken⟩ := lexemes_of_isMark here
    refine ⟨line, left, taken, ?_⟩
    simp only [advance, Parsed.modify, Except.ok.injEq, Prod.mk.injEq] at read
    rw [← read.2, taken]
    rfl
  · cases read

theorem takeMark_of_cons {mark : Char} {line : Nat} {left : List Lexeme}
    (here : parser.lexemes = ⟨.mark mark, line⟩ :: left) :
    takeMark mark parser = .ok ((), parser.at left) := by
  have marked : parser.isMark mark = true := (isMark_iff parser mark).mpr (by simp [here])
  unfold takeMark
  rw [Parsed.get_bind, if_pos marked]
  simp only [advance, Parsed.modify, here]
  rfl

end Readings

/-- What a reading takes derives what it reads. -/
def Sound {α β : Type} (read : Parsed α) (derives : List Token → β → List Token → Prop)
    (meant : α → β) : Prop :=
  ∀ parser value after, read parser = .ok (value, after) → ∃ left, after = parser.at left ∧
    derives (tokensOf parser.lexemes) (meant value) (tokensOf left)

/-- A reading reads what derives, where the tokens after it let it end. -/
def Complete {α β : Type} (read : Parsed α) (derives : List Token → β → List Token → Prop)
    (meant : α → β) (follows : List Token → Prop) (nesting : Nat) : Prop :=
  ∀ parser value rest, parser.nesting ≤ nesting → derives (tokensOf parser.lexemes) value rest →
    follows rest → ∃ given left, read parser = .ok (given, parser.at left) ∧
      meant given = value ∧ tokensOf left = rest

section Subjects

theorem readSubject_sound : Sound readSubject DerivesSubject WrittenSubject.allowed := by
  intro parser value after read
  unfold readSubject at read
  obtain ⟨⟨objectType, line⟩, between, named, read⟩ := Parsed.bind_eq_ok read
  obtain ⟨left, taken, rfl⟩ := takeName_eq_ok named
  simp only [Parsed.get_bind] at read
  split at read
  · next hash =>
    obtain ⟨_, more, marked⟩ := lexemes_of_isMark hash
    rw [advance_bind] at read
    obtain ⟨⟨member, _⟩, last, membered, read⟩ := Parsed.bind_eq_ok read
    obtain ⟨rest, takenMember, rfl⟩ := takeName_eq_ok membered
    obtain ⟨rfl, rfl⟩ := Parsed.pure_eq_ok read
    refine ⟨rest, rfl, ?_⟩
    simp only [Parser.at_lexemes] at marked takenMember
    rw [marked, List.tail_cons] at takenMember
    rw [taken, marked, takenMember]
    exact .member
  · obtain ⟨rfl, rfl⟩ := Parsed.pure_eq_ok read
    refine ⟨left, rfl, ?_⟩
    rw [taken]
    exact .object

theorem readSubject_complete (nesting : Nat) :
    Complete readSubject DerivesSubject WrittenSubject.allowed
      (fun rest => rest.head? ≠ some (.mark '#')) nesting := by
  intro parser value rest _ derived follows
  generalize same : tokensOf parser.lexemes = tokens at derived
  cases derived with
  | object =>
    obtain ⟨line, left, taken, rfl⟩ := tokensOf_eq_cons same
    have unmarked : ¬ (parser.at left).isMark '#' = true := by
      rw [isMark_iff]
      exact follows
    refine ⟨⟨_, none, line⟩, left, ?_, rfl, rfl⟩
    unfold readSubject
    rw [Parsed.bind_apply, takeName_of_cons taken]
    simp only [Parsed.get_bind, if_neg unmarked]
    rfl
  | member =>
    obtain ⟨line, left, taken, same⟩ := tokensOf_eq_cons same
    obtain ⟨hashLine, more, marked, same⟩ := tokensOf_eq_cons same
    obtain ⟨memberLine, last, membered, rfl⟩ := tokensOf_eq_cons same
    have hash : (parser.at left).isMark '#' = true := by
      rw [isMark_iff]
      simp [marked]
    refine ⟨⟨_, some _, line⟩, last, ?_, rfl, rfl⟩
    unfold readSubject
    rw [Parsed.bind_apply, takeName_of_cons taken]
    simp only [Parsed.get_bind, if_pos hash, advance_bind]
    rw [Parsed.bind_apply, takeName_of_cons (by simpa [marked] using membered)]
    rfl

end Subjects

section Joined

variable {α β : Type} {read : Parsed α} {derives : List Token → β → List Token → Prop}
  {meant : α → β}

theorem readJoined_sound (sound : Sound read derives meant) (mark : Char) (turns : Nat) :
    Sound (readJoined mark read turns) (DerivesJoined mark derives) (List.map meant) := by
  induction turns with
  | zero =>
    intro parser value after done
    obtain ⟨rfl, rfl⟩ := Parsed.pure_eq_ok done
    exact ⟨after.lexemes, rfl, .nil⟩
  | succ turns ih =>
    intro parser value after done
    unfold readJoined at done
    rw [Parsed.get_bind] at done
    split at done
    · next marked =>
      obtain ⟨_, left, taken⟩ := lexemes_of_isMark marked
      rw [advance_bind] at done
      obtain ⟨one, between, first, done⟩ := Parsed.bind_eq_ok done
      obtain ⟨middle, rfl, derived⟩ := sound _ _ _ first
      obtain ⟨others, last, more, done⟩ := Parsed.bind_eq_ok done
      obtain ⟨rest, rfl, joined⟩ := ih _ _ _ more
      obtain ⟨rfl, rfl⟩ := Parsed.pure_eq_ok done
      refine ⟨rest, rfl, ?_⟩
      rw [taken, tokensOf_cons, List.map_cons]
      refine .cons ?_ joined
      simpa [taken] using derived
    · obtain ⟨rfl, rfl⟩ := Parsed.pure_eq_ok done
      exact ⟨after.lexemes, rfl, .nil⟩

theorem derivesJoined_length {mark : Char}
    (shrinks : ∀ tokens value rest, derives tokens value rest → rest.length < tokens.length)
    {tokens rest : List Token} {values : List β}
    (joined : DerivesJoined mark derives tokens values rest) : rest.length ≤ tokens.length := by
  induction joined with
  | nil => exact Nat.le_refl _
  | cons first _ ih =>
    have shorter := shrinks _ _ _ first
    simp only [List.length_cons]
    omega

theorem readJoined_complete {follows : List Token → Prop} {nesting : Nat} (mark : Char)
    (complete : Complete read derives meant follows nesting)
    (shrinks : ∀ tokens value rest, derives tokens value rest → rest.length < tokens.length)
    (marked : ∀ rest, follows (.mark mark :: rest)) (turns : Nat) (parser : Parser)
    {values : List β} {rest : List Token} (nested : parser.nesting ≤ nesting)
    (joined : DerivesJoined mark derives (tokensOf parser.lexemes) values rest)
    (ended : rest.head? ≠ some (.mark mark)) (following : follows rest)
    (enough : parser.lexemes.length ≤ turns) :
    ∃ given left, readJoined mark read turns parser = .ok (given, parser.at left) ∧
      given.map meant = values ∧ tokensOf left = rest := by
  generalize same : tokensOf parser.lexemes = tokens at joined
  induction joined generalizing parser turns with
  | nil =>
    subst same
    have unmarked : ¬ parser.isMark mark = true := by
      rw [isMark_iff]
      exact ended
    refine ⟨[], parser.lexemes, ?_, rfl, rfl⟩
    cases turns with
    | zero => rfl
    | succ turns =>
      unfold readJoined
      rw [Parsed.get_bind, if_neg unmarked]
      rfl
  | @cons tokens between rest value values first more ih =>
    obtain ⟨line, left, taken, rfl⟩ := tokensOf_eq_cons same
    have here : parser.isMark mark = true := by
      rw [isMark_iff]
      simp [taken]
    have goes : follows between := by
      cases more with
      | nil => exact following
      | cons _ _ => exact marked _
    obtain ⟨given, middle, one, rfl, rfl⟩ := complete (parser.at left) value between nested first goes
    cases turns with
    | zero => simp [taken] at enough
    | succ turns =>
      have shorter := shrinks _ _ _ first
      have within : middle.length ≤ turns := by
        simp only [tokensOf, List.length_map] at shorter
        simp only [taken, List.length_cons] at enough
        omega
      obtain ⟨others, last, joined, rfl, rfl⟩ := ih turns (parser.at middle) nested ended
        following within rfl
      refine ⟨given :: others, last, ?_, rfl, rfl⟩
      unfold readJoined
      rw [Parsed.get_bind, if_pos here, advance_bind, taken, List.tail_cons]
      change (read >>= _) (parser.at left) = _
      rw [Parsed.bind_apply, one]
      simp only [Parser.at_at]
      rw [Parsed.bind_apply, joined]
      rfl

end Joined

/-- Tokens that do not go on with a term. -/
def FollowsTerm (rest : List Token) : Prop := rest.head? ≠ some (.name "from")

/-- Tokens that do not go on with an expression. -/
def FollowsExpression (rest : List Token) : Prop :=
  FollowsTerm rest ∧ rest.head? ≠ some (.mark '+') ∧ rest.head? ≠ some (.mark '&')

section Terms

variable {derives : List Token → Formula → List Token → Prop}

theorem readTermOf_sound {inner : Option (Parsed Expression)}
    (sound : ∀ read ∈ inner, Sound read derives Expression.formula) :
    Sound (readTermOf inner) (DerivesTerm derives) Expression.formula := by
  intro parser value after read
  unfold readTermOf at read
  rw [Parsed.get_bind] at read
  split at read
  · next opened =>
    obtain ⟨_, inside, taken⟩ := lexemes_of_isMark opened
    rw [Parsed.get_bind] at read
    split at read
    · cases read
    · cases inner with
      | none => cases read
      | some readInner =>
        simp only at read
        rw [advance_bind, Parsed.modify_bind] at read
        obtain ⟨formula, between, first, read⟩ := Parsed.bind_eq_ok read
        obtain ⟨left, rfl, derived⟩ := sound readInner rfl _ _ _ first
        obtain ⟨_, last, closed, read⟩ := Parsed.bind_eq_ok read
        obtain ⟨_, rest, closing, rfl⟩ := takeMark_eq_ok closed
        rw [Parsed.modify_bind] at read
        obtain ⟨rfl, rfl⟩ := Parsed.pure_eq_ok read
        refine ⟨rest, by simp [Parser.at], ?_⟩
        simp only [Parser.at_lexemes] at closing
        rw [taken, tokensOf_cons]
        refine .parentheses ?_
        simpa [taken, closing] using derived
  · obtain ⟨⟨name, line⟩, between, named, read⟩ := Parsed.bind_eq_ok read
    obtain ⟨left, taken, rfl⟩ := takeName_eq_ok named
    simp only [Parsed.get_bind] at read
    split at read
    · next word =>
      obtain ⟨_, more, worded⟩ := lexemes_of_isWord word
      rw [advance_bind] at read
      obtain ⟨⟨relation, _⟩, last, related, read⟩ := Parsed.bind_eq_ok read
      obtain ⟨rest, takenRelation, rfl⟩ := takeName_eq_ok related
      obtain ⟨rfl, rfl⟩ := Parsed.pure_eq_ok read
      refine ⟨rest, rfl, ?_⟩
      simp only [Parser.at_lexemes] at worded takenRelation
      rw [worded, List.tail_cons] at takenRelation
      rw [taken, worded, takenRelation]
      exact .arrow
    · obtain ⟨rfl, rfl⟩ := Parsed.pure_eq_ok read
      refine ⟨left, rfl, ?_⟩
      rw [taken]
      exact .member

theorem derivesTerm_length
    (shrinks : ∀ tokens formula rest, derives tokens formula rest → rest.length < tokens.length)
    {tokens rest : List Token} {formula : Formula} (derived : DerivesTerm derives tokens formula rest) :
    rest.length < tokens.length := by
  cases derived with
  | member => simp
  | arrow => simp only [List.length_cons]; omega
  | parentheses within =>
    have shorter := shrinks _ _ _ within
    simp only [List.length_cons] at shorter ⊢
    omega

theorem readTermOf_complete {inner : Option (Parsed Expression)} {nesting : Nat}
    (complete : ∀ tokens formula rest, derives tokens formula rest → ∃ read, inner = some read ∧
      nesting < MAX_NESTING ∧
      Complete read derives Expression.formula FollowsExpression (nesting + 1)) :
    Complete (readTermOf inner) (DerivesTerm derives) Expression.formula FollowsTerm nesting := by
  intro parser value rest nested derived follows
  generalize same : tokensOf parser.lexemes = tokens at derived
  cases derived with
  | member =>
    obtain ⟨line, left, taken, rfl⟩ := tokensOf_eq_cons same
    have unopened : ¬ parser.isMark '(' = true := by
      rw [isMark_iff]
      simp [taken]
    have unworded : ¬ (parser.at left).isWord "from" = true := by
      rw [isWord_iff]
      exact follows
    refine ⟨.member _ line, left, ?_, rfl, rfl⟩
    unfold readTermOf
    rw [Parsed.get_bind, if_neg unopened, Parsed.bind_apply, takeName_of_cons taken]
    simp only [Parsed.get_bind, if_neg unworded]
    rfl
  | arrow =>
    obtain ⟨line, left, taken, same⟩ := tokensOf_eq_cons same
    obtain ⟨_, more, worded, same⟩ := tokensOf_eq_cons same
    obtain ⟨_, last, related, rfl⟩ := tokensOf_eq_cons same
    have unopened : ¬ parser.isMark '(' = true := by
      rw [isMark_iff]
      simp [taken]
    have word : (parser.at left).isWord "from" = true := by
      rw [isWord_iff]
      simp [worded]
    refine ⟨.arrow _ _ line, last, ?_, rfl, rfl⟩
    unfold readTermOf
    rw [Parsed.get_bind, if_neg unopened, Parsed.bind_apply, takeName_of_cons taken]
    simp only [Parsed.get_bind, if_pos word, advance_bind]
    rw [Parsed.bind_apply, takeName_of_cons (by simpa [worded] using related)]
    rfl
  | parentheses within =>
    obtain ⟨line, left, taken, rfl⟩ := tokensOf_eq_cons same
    have opened : parser.isMark '(' = true := by
      rw [isMark_iff]
      simp [taken]
    obtain ⟨read, rfl, shallow, completes⟩ := complete _ _ _ within
    have below : ¬ (parser.nesting == MAX_NESTING) = true := by
      simp only [beq_iff_eq]
      omega
    obtain ⟨given, closing, ran, rfl, closes⟩ := completes
      { lexemes := left, lastLine := parser.lastLine, nesting := parser.nesting + 1 } value _
      (Nat.succ_le_succ nested) within (by simp [FollowsExpression, FollowsTerm])
    obtain ⟨_, last, closed, rfl⟩ := tokensOf_eq_cons closes
    refine ⟨given, last, ?_, rfl, rfl⟩
    unfold readTermOf
    rw [Parsed.get_bind, if_pos opened, Parsed.get_bind, if_neg below]
    simp only [advance_bind, Parsed.modify_bind, taken, List.tail_cons]
    rw [Parsed.bind_apply, ran]
    simp only
    rw [Parsed.bind_apply, takeMark_of_cons closed]
    rfl

theorem readExpressionOf_sound {readTerm : Parsed Expression}
    (sound : Sound readTerm derives Expression.formula) :
    Sound (readExpressionOf readTerm) (DerivesExpression derives) Expression.formula := by
  intro parser value after read
  unfold readExpressionOf at read
  obtain ⟨first, between, one, read⟩ := Parsed.bind_eq_ok read
  obtain ⟨left, rfl, derived⟩ := sound _ _ _ one
  rw [Parsed.get_bind] at read
  split at read
  · next joins =>
    obtain ⟨terms, last, more, read⟩ := Parsed.bind_eq_ok read
    obtain ⟨rest, rfl, joined⟩ := readJoined_sound sound _ _ _ _ _ more
    rw [Parsed.get_bind] at read
    split at read
    · cases read
    · next ended =>
      have some_terms : ∃ second others, terms = second :: others := by
        cases terms with
        | cons second others => exact ⟨second, others, rfl⟩
        | nil =>
          generalize same : tokensOf (parser.at left).lexemes = tokens at joined
          cases joined
          refine absurd ?_ ended
          simp only [Bool.or_eq_true, isMark_iff, Parser.at_lexemes] at joins ⊢
          rwa [← same]
      obtain ⟨second, others, rfl⟩ := some_terms
      by_cases plus : (parser.at left).isMark '+' = true
      · simp only [if_pos plus, beq_self_eq_true, if_true] at read joined
        obtain ⟨rfl, rfl⟩ := Parsed.pure_eq_ok read
        refine ⟨rest, rfl, ?_⟩
        simp only [Expression.formula, Expression.formulas, Expression.formulas_eq_map]
        exact .sum derived joined
      · have other : ¬ ('&' == '+') = true := by decide
        simp only [if_neg plus, if_neg other] at read joined
        obtain ⟨rfl, rfl⟩ := Parsed.pure_eq_ok read
        refine ⟨rest, rfl, ?_⟩
        simp only [Expression.formula, Expression.formulas, Expression.formulas_eq_map]
        exact .intersection derived joined
  · obtain ⟨rfl, rfl⟩ := Parsed.pure_eq_ok read
    exact ⟨left, rfl, .term derived⟩

theorem derivesExpression_length
    (shrinks : ∀ tokens formula rest, derives tokens formula rest → rest.length < tokens.length)
    {tokens rest : List Token} {formula : Formula}
    (derived : DerivesExpression derives tokens formula rest) : rest.length < tokens.length := by
  cases derived with
  | term alone => exact shrinks _ _ _ alone
  | sum one joined =>
    exact Nat.lt_of_le_of_lt (derivesJoined_length shrinks joined) (shrinks _ _ _ one)
  | intersection one joined =>
    exact Nat.lt_of_le_of_lt (derivesJoined_length shrinks joined) (shrinks _ _ _ one)

theorem derivesJoined_head {α : Type} {mark : Char} {one : List Token → α → List Token → Prop}
    {tokens rest : List Token} {value : α} {values : List α}
    (joined : DerivesJoined mark one tokens (value :: values) rest) :
    tokens.head? = some (.mark mark) := by
  cases joined
  rfl

/-- A joined expression is read to its end, whichever mark joins it. -/
theorem readExpressionOf_joined {readTerm : Parsed Expression} {nesting : Nat}
    (complete : Complete readTerm derives Expression.formula FollowsTerm nesting)
    (shrinks : ∀ tokens formula rest, derives tokens formula rest → rest.length < tokens.length)
    {mark : Char} (joins : mark = '+' ∨ mark = '&') {parser : Parser} {between rest : List Token}
    {first second : Formula} {more : List Formula} (nested : parser.nesting ≤ nesting)
    (one : derives (tokensOf parser.lexemes) first between)
    (joined : DerivesJoined mark derives between (second :: more) rest)
    (follows : FollowsExpression rest) :
    ∃ given terms left, readExpressionOf readTerm parser =
        .ok (if mark = '+' then .union (given :: terms) else .intersection (given :: terms),
          parser.at left) ∧
      given.formula = first ∧ terms.map Expression.formula = second :: more ∧
      tokensOf left = rest := by
  have head := derivesJoined_head joined
  have notWord : FollowsTerm between := by
    rw [FollowsTerm, head]
    simp
  obtain ⟨given, middle, ran, rfl, rfl⟩ := complete parser first between nested one notWord
  obtain ⟨terms, left, readTerms, meant, rfl⟩ := readJoined_complete mark complete shrinks
    (by simp [FollowsTerm]) (parser.at middle).lexemes.length (parser.at middle) nested joined
    (by rcases joins with rfl | rfl; exacts [follows.2.1, follows.2.2]) follows.1 (Nat.le_refl _)
  have marked : ((parser.at middle).isMark '+' || (parser.at middle).isMark '&') = true := by
    simp only [Bool.or_eq_true, isMark_iff, Parser.at_lexemes, head]
    rcases joins with rfl | rfl <;> simp
  have chosen : (if (parser.at middle).isMark '+' = true then '+' else '&') = mark := by
    simp only [isMark_iff, Parser.at_lexemes, head]
    rcases joins with rfl | rfl <;> simp
  have ended : ¬ ((parser.at left).isMark '+' || (parser.at left).isMark '&') = true := by
    simp only [Bool.or_eq_true, isMark_iff, Parser.at_lexemes, not_or]
    exact follows.2
  refine ⟨given, terms, left, ?_, rfl, meant, rfl⟩
  unfold readExpressionOf
  rw [Parsed.bind_apply, ran]
  simp only [Parsed.get_bind, if_pos marked, chosen]
  rw [Parsed.bind_apply, readTerms]
  simp only [Parsed.get_bind, Parser.at_at, if_neg ended]
  rcases joins with rfl | rfl <;> rfl

theorem readExpressionOf_complete {readTerm : Parsed Expression} {nesting : Nat}
    (complete : Complete readTerm derives Expression.formula FollowsTerm nesting)
    (shrinks : ∀ tokens formula rest, derives tokens formula rest → rest.length < tokens.length) :
    Complete (readExpressionOf readTerm) (DerivesExpression derives) Expression.formula
      FollowsExpression nesting := by
  intro parser value rest nested derived follows
  cases derived with
  | term alone =>
    obtain ⟨given, left, ran, rfl, rfl⟩ := complete parser value rest nested alone follows.1
    have ended : ¬ ((parser.at left).isMark '+' || (parser.at left).isMark '&') = true := by
      simp only [Bool.or_eq_true, isMark_iff, Parser.at_lexemes, not_or]
      exact follows.2
    refine ⟨given, left, ?_, rfl, rfl⟩
    unfold readExpressionOf
    rw [Parsed.bind_apply, ran]
    simp only [Parsed.get_bind, if_neg ended]
    rfl
  | sum one joined =>
    obtain ⟨given, terms, left, ran, rfl, meant, rfl⟩ :=
      readExpressionOf_joined complete shrinks (Or.inl rfl) nested one joined follows
    refine ⟨.union (given :: terms), left, ran, ?_, rfl⟩
    simp only [Expression.formula, Expression.formulas, Expression.formulas_eq_map, meant]
  | intersection one joined =>
    obtain ⟨given, terms, left, ran, rfl, meant, rfl⟩ :=
      readExpressionOf_joined complete shrinks (Or.inr rfl) nested one joined follows
    refine ⟨.intersection (given :: terms), left, ran, ?_, rfl⟩
    simp only [Expression.formula, Expression.formulas, Expression.formulas_eq_map, meant]

end Terms

theorem derivesFormula_length :
    ∀ (depth : Nat) (tokens : List Token) (formula : Formula) (rest : List Token),
      DerivesFormula depth tokens formula rest → rest.length < tokens.length
  | 0, _, _, _, derived =>
    derivesExpression_length (fun _ _ _ term => derivesTerm_length (fun _ _ _ none => none.elim)
      term) derived
  | depth + 1, _, _, _, derived =>
    derivesExpression_length (fun _ _ _ term => derivesTerm_length (derivesFormula_length depth)
      term) derived

theorem readExpression_sound :
    ∀ depth, Sound (readExpression depth) (DerivesFormula depth) Expression.formula
  | 0 => readExpressionOf_sound (readTermOf_sound (by simp))
  | depth + 1 => by
    refine readExpressionOf_sound (readTermOf_sound ?_)
    rintro read ⟨⟩
    exact readExpression_sound depth

theorem readExpression_complete :
    ∀ depth nesting, nesting + depth ≤ MAX_NESTING →
      Complete (readExpression depth) (DerivesFormula depth) Expression.formula FollowsExpression
        nesting
  | 0, nesting, _ =>
    readExpressionOf_complete (readTermOf_complete fun _ _ _ none => none.elim)
      fun _ _ _ term => derivesTerm_length (fun _ _ _ none => none.elim) term
  | depth + 1, nesting, within => by
    refine readExpressionOf_complete (readTermOf_complete ?_) ?_
    · intro _ _ _ _
      exact ⟨_, rfl, by omega, readExpression_complete depth (nesting + 1) (by omega)⟩
    · exact fun _ _ _ term => derivesTerm_length (derivesFormula_length depth) term

theorem derivesSubject_length (tokens : List Token) (subject : AllowedSubject) (rest : List Token)
    (derived : DerivesSubject tokens subject rest) : rest.length < tokens.length := by
  cases derived with
  | object => simp
  | member => simp only [List.length_cons]; omega

/-- Tokens that may follow a declaration: another one, or the brace that ends
them. -/
def FollowsClause (rest : List Token) : Prop :=
  rest.head? = some (.mark '}') ∨ rest.head? = some (.name "relation") ∨
    rest.head? = some (.name "permission")

theorem FollowsClause.expression {rest : List Token} (follows : FollowsClause rest) :
    FollowsExpression rest := by
  rcases follows with head | head | head <;> simp [FollowsExpression, FollowsTerm, head]

theorem FollowsClause.subject {rest : List Token} (follows : FollowsClause rest) :
    rest.head? ≠ some (.mark '#') ∧ rest.head? ≠ some (.mark '|') := by
  rcases follows with head | head | head <;> simp [head]

theorem readRelation_sound {parser after : Parser} {declaration : Declaration}
    (read : readDeclaration.readRelation parser = .ok (declaration, after)) :
    ∃ left, after = parser.at left ∧
      DerivesClause (.name "relation" :: tokensOf parser.lexemes) declaration.clause
        (tokensOf left) := by
  unfold readDeclaration.readRelation at read
  obtain ⟨⟨name, line⟩, between, named, read⟩ := Parsed.bind_eq_ok read
  obtain ⟨left, taken, rfl⟩ := takeName_eq_ok named
  obtain ⟨_, _, marked, read⟩ := Parsed.bind_eq_ok read
  obtain ⟨_, more, colon, rfl⟩ := takeMark_eq_ok marked
  obtain ⟨first, _, one, read⟩ := Parsed.bind_eq_ok read
  obtain ⟨middle, rfl, derived⟩ := readSubject_sound _ _ _ one
  rw [Parsed.get_bind] at read
  obtain ⟨others, _, rest, read⟩ := Parsed.bind_eq_ok read
  obtain ⟨last, rfl, joined⟩ := readJoined_sound readSubject_sound _ _ _ _ _ rest
  obtain ⟨rfl, rfl⟩ := Parsed.pure_eq_ok read
  refine ⟨last, rfl, ?_⟩
  simp only [Parser.at_lexemes] at colon
  rw [taken, colon]
  exact .relation derived joined

theorem readPermission_sound {parser after : Parser} {declaration : Declaration}
    (read : readDeclaration.readPermission parser = .ok (declaration, after)) :
    ∃ left, after = parser.at left ∧
      DerivesClause (.name "permission" :: tokensOf parser.lexemes) declaration.clause
        (tokensOf left) := by
  unfold readDeclaration.readPermission at read
  obtain ⟨⟨name, line⟩, between, named, read⟩ := Parsed.bind_eq_ok read
  obtain ⟨left, taken, rfl⟩ := takeName_eq_ok named
  obtain ⟨_, _, marked, read⟩ := Parsed.bind_eq_ok read
  obtain ⟨_, more, equals, rfl⟩ := takeMark_eq_ok marked
  obtain ⟨expression, _, one, read⟩ := Parsed.bind_eq_ok read
  obtain ⟨last, rfl, derived⟩ := readExpression_sound _ _ _ _ one
  obtain ⟨rfl, rfl⟩ := Parsed.pure_eq_ok read
  refine ⟨last, rfl, ?_⟩
  simp only [Parser.at_lexemes] at equals
  rw [taken, equals]
  exact .permission derived

theorem readDeclaration_sound : Sound readDeclaration DerivesClause Declaration.clause := by
  intro parser value after read
  unfold readDeclaration at read
  split at read
  · cases read
  · next keyword line between named =>
    obtain ⟨left, taken, rfl⟩ := takeName_eq_ok named
    split at read
    · next relation =>
      obtain ⟨rest, rfl, derived⟩ := readRelation_sound read
      refine ⟨rest, rfl, ?_⟩
      rw [taken, tokensOf_cons, relation]
      exact derived
    · split at read
      · next permission =>
        obtain ⟨rest, rfl, derived⟩ := readPermission_sound read
        refine ⟨rest, rfl, ?_⟩
        rw [taken, tokensOf_cons, permission]
        exact derived
      · cases read

theorem readDeclaration_complete :
    Complete readDeclaration DerivesClause Declaration.clause FollowsClause 0 := by
  intro parser value rest nested derived follows
  generalize same : tokensOf parser.lexemes = tokens at derived
  cases derived with
  | @relation label _ _ _ _ _ first more =>
    obtain ⟨_, keyworded, keyword, same⟩ := tokensOf_eq_cons same
    obtain ⟨nameLine, named, name, same⟩ := tokensOf_eq_cons same
    obtain ⟨_, colon, mark, rfl⟩ := tokensOf_eq_cons same
    have goes : ∀ between subjects, DerivesJoined '|' DerivesSubject between subjects rest →
        between.head? ≠ some (.mark '#') := by
      intro between subjects joined
      cases joined with
      | nil => exact follows.subject.1
      | cons _ _ => simp
    obtain ⟨one, middle, readFirst, oneMeant, rfl⟩ := readSubject_complete 0 (parser.at colon) _ _
      nested first (goes _ _ more)
    obtain ⟨others, left, readMore, meant, rfl⟩ := readJoined_complete '|'
      (readSubject_complete 0) derivesSubject_length (by simp) (parser.at middle).lexemes.length
      (parser.at middle) nested more follows.subject.2 follows.subject.1 (Nat.le_refl _)
    refine ⟨.relation label nameLine (one :: others), left, ?_, ?_, rfl⟩
    · unfold readDeclaration
      rw [takeName_of_cons keyword]
      simp only [if_true]
      unfold readDeclaration.readRelation
      rw [Parsed.bind_apply, takeName_of_cons (by simpa using name)]
      simp only
      rw [Parsed.bind_apply, takeMark_of_cons (by simpa using mark)]
      simp only [Parser.at_at]
      rw [Parsed.bind_apply, readFirst]
      simp only [Parsed.get_bind, Parser.at_at]
      rw [Parsed.bind_apply, readMore]
      rfl
    · simp only [Declaration.clause, List.map_cons, oneMeant, meant]
  | permission expression =>
    obtain ⟨_, keyworded, keyword, same⟩ := tokensOf_eq_cons same
    obtain ⟨nameLine, named, name, same⟩ := tokensOf_eq_cons same
    obtain ⟨_, equals, mark, rfl⟩ := tokensOf_eq_cons same
    obtain ⟨given, left, ran, rfl, rfl⟩ := readExpression_complete MAX_NESTING 0 (by omega)
      (parser.at equals) _ _ nested expression follows.expression
    refine ⟨.permission _ nameLine given, left, ?_, rfl, rfl⟩
    unfold readDeclaration
    rw [takeName_of_cons keyword]
    have other : ¬ "permission" = "relation" := by decide
    simp only [if_neg other, if_true]
    unfold readDeclaration.readPermission
    rw [Parsed.bind_apply, takeName_of_cons (by simpa using name)]
    simp only
    rw [Parsed.bind_apply, takeMark_of_cons (by simpa using mark)]
    simp only [Parser.at_at]
    rw [Parsed.bind_apply, ran]
    rfl

theorem derivesClause_length {tokens rest : List Token} {clause : Clause}
    (derived : DerivesClause tokens clause rest) : rest.length < tokens.length := by
  cases derived with
  | relation first more =>
    have one := derivesSubject_length _ _ _ first
    have others := derivesJoined_length derivesSubject_length more
    simp only [List.length_cons]
    omega
  | permission expression =>
    have shorter := derivesFormula_length _ _ _ _ expression
    simp only [List.length_cons]
    omega

theorem readDeclarations_sound {turns : Nat} {parser after : Parser}
    {declarations : List Declaration}
    (read : readDeclarations turns parser = .ok (declarations, after)) :
    ∃ line left, after = parser.at (⟨.mark '}', line⟩ :: left) ∧
      DerivesClauses (tokensOf parser.lexemes) (declarations.map Declaration.clause)
        (tokensOf left) := by
  have ends : ∀ {parser : Parser}, parser.isMark '}' = true →
      ∃ line left, parser = parser.at (⟨.mark '}', line⟩ :: left) ∧
        DerivesClauses (tokensOf parser.lexemes) [] (tokensOf left) := by
    intro parser closed
    obtain ⟨line, left, taken⟩ := lexemes_of_isMark closed
    refine ⟨line, left, by rw [← taken]; rfl, ?_⟩
    rw [taken]
    exact .nil
  induction turns generalizing parser after declarations with
  | zero =>
    unfold readDeclarations at read
    split at read
    · next closed =>
      rw [Except.ok.injEq, Prod.mk.injEq] at read
      obtain ⟨rfl, rfl⟩ := read
      exact ends closed
    · cases read
  | succ turns ih =>
    unfold readDeclarations at read
    rw [Parsed.get_bind] at read
    split at read
    · next closed =>
      obtain ⟨rfl, rfl⟩ := Parsed.pure_eq_ok read
      exact ends closed
    · split at read
      · cases read
      · obtain ⟨one, _, first, read⟩ := Parsed.bind_eq_ok read
        obtain ⟨middle, rfl, derived⟩ := readDeclaration_sound _ _ _ first
        obtain ⟨others, _, rest, read⟩ := Parsed.bind_eq_ok read
        obtain ⟨line, left, rfl, more⟩ := ih rest
        obtain ⟨rfl, rfl⟩ := Parsed.pure_eq_ok read
        exact ⟨line, left, rfl, .cons derived more⟩

theorem derivesClause_head {tokens rest : List Token} {clause : Clause}
    (derived : DerivesClause tokens clause rest) :
    tokens.head? = some (.name "relation") ∨ tokens.head? = some (.name "permission") := by
  cases derived with
  | relation _ _ => exact Or.inl rfl
  | permission _ => exact Or.inr rfl

theorem derivesClauses_length {tokens rest : List Token} {clauses : List Clause}
    (derived : DerivesClauses tokens clauses rest) : rest.length < tokens.length := by
  induction derived with
  | nil => simp
  | cons first _ ih => exact Nat.lt_trans ih (derivesClause_length first)

theorem followsClause_of_derivesClauses {tokens rest : List Token} {clauses : List Clause}
    (derived : DerivesClauses tokens clauses rest) : FollowsClause tokens := by
  cases derived with
  | nil => exact Or.inl rfl
  | cons first _ => exact Or.inr (derivesClause_head first)

theorem readDeclarations_complete {tokens rest : List Token} {clauses : List Clause}
    (derived : DerivesClauses tokens clauses rest) (turns : Nat) (parser : Parser)
    (same : tokensOf parser.lexemes = tokens) (nested : parser.nesting ≤ 0)
    (enough : parser.lexemes.length ≤ turns) :
    ∃ declarations line left, readDeclarations turns parser =
        .ok (declarations, parser.at (⟨.mark '}', line⟩ :: left)) ∧
      declarations.map Declaration.clause = clauses ∧ tokensOf left = rest := by
  induction derived generalizing turns parser with
  | nil =>
    obtain ⟨line, left, taken, rfl⟩ := tokensOf_eq_cons same
    have closed : parser.isMark '}' = true := by
      rw [isMark_iff]
      simp [taken]
    refine ⟨[], line, left, ?_, rfl, rfl⟩
    rw [← taken]
    cases turns with
    | zero => simp [taken] at enough
    | succ turns =>
      unfold readDeclarations
      rw [Parsed.get_bind, if_pos closed]
      rfl
  | @cons tokens between rest clause clauses first more ih =>
    subst same
    obtain ⟨given, middle, one, rfl, rfl⟩ := readDeclaration_complete parser clause between nested
      first (followsClause_of_derivesClauses more)
    have shorter := derivesClause_length first
    simp only [tokensOf, List.length_map] at shorter
    cases turns with
    | zero => omega
    | succ turns =>
      obtain ⟨others, line, left, rest, rfl, rfl⟩ := ih turns
        (parser.at middle) rfl nested (by simp only [Parser.at_lexemes]; omega)
      have opened : ¬ parser.isMark '}' = true := by
        rw [isMark_iff]
        rcases derivesClause_head first with head | head <;> simp [head]
      have some_left : ¬ parser.lexemes.isEmpty = true := by
        rw [List.isEmpty_iff_length_eq_zero]
        omega
      refine ⟨given :: others, line, left, ?_, rfl, rfl⟩
      unfold readDeclarations
      rw [Parsed.get_bind, if_neg opened, if_neg some_left, Parsed.bind_apply, one]
      simp only
      rw [Parsed.bind_apply, rest]
      rfl

theorem readDefinition_sound {parser after : Parser} {definition : Definition}
    (read : readDefinition parser = .ok (definition, after)) :
    ∃ left tokens, after = parser.at left ∧
      tokensOf parser.lexemes = .name "definition" :: .name definition.name :: .mark '{' :: tokens ∧
      DerivesClauses tokens definition.typeClauses.clauses (tokensOf left) := by
  unfold readDefinition at read
  split at read
  · cases read
  · next keyword _ _ named =>
    obtain ⟨left, taken, rfl⟩ := takeName_eq_ok named
    split at read
    · next isDefinition =>
      unfold readDefinition.readBody at read
      obtain ⟨⟨name, line⟩, _, typed, read⟩ := Parsed.bind_eq_ok read
      obtain ⟨afterName, takenName, rfl⟩ := takeName_eq_ok typed
      obtain ⟨_, _, opened, read⟩ := Parsed.bind_eq_ok read
      obtain ⟨_, inside, opening, rfl⟩ := takeMark_eq_ok opened
      rw [Parsed.get_bind] at read
      obtain ⟨declarations, _, body, read⟩ := Parsed.bind_eq_ok read
      obtain ⟨_, rest, rfl, derived⟩ := readDeclarations_sound body
      obtain ⟨_, _, closed, read⟩ := Parsed.bind_eq_ok read
      obtain ⟨_, last, closing, rfl⟩ := takeMark_eq_ok closed
      obtain ⟨rfl, rfl⟩ := Parsed.pure_eq_ok read
      obtain ⟨-, rfl⟩ := List.cons.inj closing
      refine ⟨rest, tokensOf inside, rfl, ?_, derived⟩
      simp only [Parser.at_lexemes] at takenName opening
      rw [taken, takenName, opening]
      simp [isDefinition]
    · cases read

theorem readDefinition_complete {parser : Parser} {name : String} {tokens rest : List Token}
    {clauses : List Clause} (nested : parser.nesting ≤ 0)
    (same : tokensOf parser.lexemes = .name "definition" :: .name name :: .mark '{' :: tokens)
    (derived : DerivesClauses tokens clauses rest) :
    ∃ definition left, readDefinition parser = .ok (definition, parser.at left) ∧
      definition.typeClauses = ⟨name, clauses⟩ ∧ tokensOf left = rest := by
  obtain ⟨_, keyworded, keyword, same⟩ := tokensOf_eq_cons same
  obtain ⟨line, named, typed, same⟩ := tokensOf_eq_cons same
  obtain ⟨_, inside, opening, rfl⟩ := tokensOf_eq_cons same
  obtain ⟨declarations, _, left, body, rfl, rfl⟩ := readDeclarations_complete derived
    inside.length (parser.at inside) rfl nested (Nat.le_refl _)
  refine ⟨⟨name, line, declarations⟩, left, ?_, rfl, rfl⟩
  unfold readDefinition
  rw [takeName_of_cons keyword]
  simp only [if_true]
  unfold readDefinition.readBody
  rw [Parsed.bind_apply, takeName_of_cons (by simpa using typed)]
  simp only
  rw [Parsed.bind_apply, takeMark_of_cons (by simpa using opening)]
  simp only [Parsed.get_bind, Parser.at_at, Parser.at_lexemes]
  rw [Parsed.bind_apply, body]
  simp only [Parser.at_at]
  rw [Parsed.bind_apply, takeMark_of_cons (by exact rfl)]
  rfl

theorem SchemaFaults.note_shown (faults : SchemaFaults) (fault : SchemaFault) :
    (faults.note fault).shown ≠ [] := by
  unfold SchemaFaults.note
  split
  · simp
  · next full =>
    intro empty
    rw [show faults.shown = [] from empty] at full
    exact full (by decide)

/-- A fault that is told stays told. -/
theorem readDefinitions_shown {turns : Nat} {parser : Parser} {faults : SchemaFaults}
    (some_told : faults.shown ≠ []) : (readDefinitions turns parser faults).2.shown ≠ [] := by
  induction turns generalizing parser faults with
  | zero => exact some_told
  | succ turns ih =>
    unfold readDefinitions
    split
    · exact some_told
    · split
      · exact ih some_told
      · exact ih (SchemaFaults.note_shown _ _)

/-- Definitions read without a fault are what the tokens derive. -/
theorem derives_of_readDefinitions (turns : Nat) (parser : Parser) (faults : SchemaFaults)
    (enough : parser.lexemes.length ≤ turns)
    (none_told : (readDefinitions turns parser faults).2.shown = []) :
    Derives (tokensOf parser.lexemes) (abstractOf (readDefinitions turns parser faults).1) := by
  induction turns generalizing parser faults with
  | zero =>
    rw [List.eq_nil_of_length_eq_zero (Nat.le_zero.mp enough)]
    exact .nil
  | succ turns ih =>
    unfold readDefinitions at none_told ⊢
    split at none_told
    · next empty =>
      rw [List.isEmpty_iff.mp empty]
      exact .nil
    · next some_left =>
      rw [if_neg some_left]
      split at none_told
      · next definition after read =>
        obtain ⟨left, tokens, rfl, same, derived⟩ := readDefinition_sound read
        have shorter : left.length ≤ turns := by
          have within := derivesClauses_length derived
          have whole := congrArg List.length same
          simp only [tokensOf, List.length_map, List.length_cons] at within whole
          omega
        rw [same]
        exact .cons derived (ih (parser.at left) faults shorter none_told)
      · exact absurd none_told (readDefinitions_shown (SchemaFaults.note_shown _ _))

theorem readDefinitions_of_derives (turns : Nat) (parser : Parser) (faults : SchemaFaults)
    {tokens : List Token} {schema : AbstractSchema} (derived : Derives tokens schema)
    (same : tokensOf parser.lexemes = tokens) (nested : parser.nesting ≤ 0)
    (enough : parser.lexemes.length ≤ turns) :
    ∃ definitions, readDefinitions turns parser faults = (definitions, faults) ∧
      abstractOf definitions = schema := by
  induction derived generalizing turns parser with
  | nil =>
    have empty : parser.lexemes = [] := List.map_eq_nil_iff.mp same
    refine ⟨[], ?_, rfl⟩
    cases turns with
    | zero => rfl
    | succ turns => simp [readDefinitions, empty]
  | @cons name tokens rest clauses schema body more ih =>
    obtain ⟨definition, left, read, meant, leftSame⟩ := readDefinition_complete nested same body
    have some_left : ¬ parser.lexemes.isEmpty = true := by
      rintro empty
      rw [List.isEmpty_iff.mp empty] at same
      cases same
    have shorter : left.length < parser.lexemes.length := by
      have within := derivesClauses_length body
      have whole := congrArg List.length same
      have rest_length := congrArg List.length leftSame
      simp only [tokensOf, List.length_map, List.length_cons] at whole rest_length
      omega
    cases turns with
    | zero => omega
    | succ turns =>
      obtain ⟨definitions, others, rfl⟩ := ih turns (parser.at left) leftSame
        nested (by simp only [Parser.at_lexemes]; omega)
      refine ⟨definition :: definitions, ?_, by rw [abstractOf, List.map_cons, meant]; rfl⟩
      unfold readDefinitions
      rw [if_neg some_left, read]
      simp only [others]

end Saffui.Authz.Relations
