import Saffui.Authz.Relations.SchemaMeaning
import Saffui.Authz.Relations.SchemaPositions

/-!
# The recovery of the parser

A reading of the parser with an index follows the reading of the parser that
keeps the lexemes left: it reads the same, or leaves the same fault at the same
place, and never ends out of turns or with one taken from zero. Its place never
goes back from where it began, nor past the lexemes. So each turn of the loop
over definitions takes a lexeme, whatever its recovery skips.
-/

namespace Saffui.Authz.Relations.Positions

variable {α β : Type} {cursor before after : Cursor}

/-- The parser with the lexemes that are left. -/
def Cursor.parser (cursor : Cursor) : Parser where
  lexemes := cursor.lexemes.drop cursor.place
  lastLine := (cursor.lexemes.getLast?.map (·.line)).getD 1
  nesting := cursor.nesting

theorem Cursor.parser_of_peek {lexeme : Lexeme} (found : cursor.peek = some lexeme) :
    cursor.parser.lexemes = lexeme :: cursor.lexemes.drop (cursor.place + 1) ∧
      cursor.place < cursor.lexemes.length := by
  obtain ⟨inside, rfl⟩ := List.getElem?_eq_some_iff.mp found
  exact ⟨List.drop_eq_getElem_cons inside, inside⟩

theorem Cursor.parser_of_none (ended : cursor.peek = none) : cursor.parser.lexemes = [] :=
  List.drop_eq_nil_of_le (List.getElem?_eq_none_iff.mp ended)

theorem Cursor.parser_next (cursor : Cursor) :
    cursor.next.parser = { cursor.parser with lexemes := cursor.parser.lexemes.tail } := by
  simp [Cursor.parser, Cursor.next, List.tail_drop]

theorem Cursor.parser_isMark (cursor : Cursor) (mark : Char) :
    cursor.parser.isMark mark = cursor.isMark mark := by
  cases found : cursor.peek with
  | none =>
    have nothing := Cursor.parser_of_none found
    simp [Parser.isMark, Cursor.isMark, nothing, found]
  | some lexeme =>
    have here := (Cursor.parser_of_peek found).1
    obtain ⟨token, line⟩ := lexeme
    cases token <;> simp [Parser.isMark, Cursor.isMark, here, found]

theorem Cursor.parser_isWord (cursor : Cursor) (word : String) :
    cursor.parser.isWord word = cursor.isWord word := by
  cases found : cursor.peek with
  | none =>
    have nothing := Cursor.parser_of_none found
    simp [Parser.isWord, Cursor.isWord, nothing, found]
  | some lexeme =>
    have here := (Cursor.parser_of_peek found).1
    obtain ⟨token, line⟩ := lexeme
    cases token <;> simp [Parser.isWord, Cursor.isWord, here, found]

theorem Cursor.parser_line (cursor : Cursor) : cursor.parser.line = cursor.line := by
  cases found : cursor.peek with
  | none =>
    have nothing := Cursor.parser_of_none found
    rw [Parser.line, nothing, Cursor.line, found]
    rfl
  | some lexeme =>
    have here := (Cursor.parser_of_peek found).1
    simp [Parser.line, Cursor.line, here, found]

theorem Cursor.parser_fault (cursor : Cursor) (message : String) :
    cursor.parser.fault message = cursor.fault message := by
  rw [Parser.fault, Cursor.fault, Cursor.parser_line]

theorem Cursor.peek_of_isMark {mark : Char} (marked : cursor.isMark mark = true) :
    ∃ line, cursor.peek = some ⟨.mark mark, line⟩ := by
  unfold Cursor.isMark at marked
  split at marked
  · next found line here =>
    obtain rfl : found = mark := by simpa using marked
    exact ⟨line, here⟩
  · cases marked

theorem Cursor.peek_of_isWord {word : String} (here : cursor.isWord word = true) :
    ∃ line, cursor.peek = some ⟨.name word, line⟩ := by
  unfold Cursor.isWord at here
  split at here
  · next found line named =>
    obtain rfl : found = word := by simpa using here
    exact ⟨line, named⟩
  · cases here

/-- A place at the end of the lexemes at most, and never more than one past it. -/
structure Cursor.Inside (cursor : Cursor) : Prop where
  place : cursor.place ≤ cursor.lexemes.length
  furthest : cursor.furthest ≤ cursor.lexemes.length + 1

/-- A place that so many lexemes at least were taken to come to. -/
structure Moved (least : Nat) (before after : Cursor) : Prop where
  lexemes : after.lexemes = before.lexemes
  place : before.place + least ≤ after.place
  inside : after.Inside

theorem Moved.trans {least more : Nat} {between : Cursor} (first : Moved least before between)
    (second : Moved more between after) : Moved (least + more) before after where
  lexemes := second.lexemes.trans first.lexemes
  place := by
    have here := first.place
    have there := second.place
    omega
  inside := second.inside

theorem Moved.le {least less : Nat} (moved : Moved least before after) (fewer : less ≤ least) :
    Moved less before after :=
  { moved with place := Nat.le_trans (Nat.add_le_add_left fewer _) moved.place }

theorem Moved.next (inside : before.Inside) {lexeme : Lexeme}
    (found : before.peek = some lexeme) : Moved 1 before before.next := by
  have here := (Cursor.parser_of_peek found).2
  have bound := inside.furthest
  refine ⟨rfl, Nat.le_refl _, here, ?_⟩
  simp only [Cursor.next]
  omega

/-- What a reading ends in is what the parser of the lexemes left ends in: a value
after so many lexemes, with so many parentheses open, or a fault. -/
inductive Agrees (least nesting : Nat) (before : Cursor) :
    Outcome α → Except (SchemaFault × Parser) (α × Parser) → Prop where
  | read {value : α} {after : Cursor} (moved : Moved least before after)
      (nested : after.nesting = nesting) :
      Agrees least nesting before (.read value after) (.ok (value, after.parser))
  | refused {fault : SchemaFault} {after : Cursor} (moved : Moved 0 before after) :
      Agrees least nesting before (.refused fault after) (.error (fault, after.parser))

def Follows (least nesting : Nat) (reading : Reading α) (parsed : Parsed α) (before : Cursor) :
    Prop :=
  Agrees least nesting before (reading before) (parsed before.parser)

variable {least nesting between : Nat} {reading : Reading α} {parsed : Parsed α}

theorem follows_pure (inside : before.Inside) (nested : before.nesting = nesting) (value : α) :
    Follows 0 nesting (pure value) (pure value) before :=
  .read ⟨rfl, Nat.le_refl _, inside⟩ nested

theorem follows_refuse (inside : before.Inside) (message : String) :
    Follows least nesting (refuse message : Reading α) (Relations.refuse message) before := by
  unfold Follows refuse Relations.refuse
  rw [Cursor.parser_fault]
  exact .refused ⟨rfl, Nat.le_refl _, inside⟩

theorem Follows.loosen (follows : Follows least nesting reading parsed before) :
    Follows 0 nesting reading parsed before := by
  unfold Follows at follows ⊢
  generalize reading before = outcome at follows ⊢
  generalize parsed before.parser = told at follows ⊢
  cases follows with
  | read moved nested => exact .read (moved.le (Nat.zero_le _)) nested
  | refused moved => exact .refused moved

/-- One reading after another, each as its parser. -/
theorem Follows.bind {next : α → Reading β} {rest : α → Parsed β}
    (begins : Follows least between reading parsed before)
    (goes : ∀ value after, Moved least before after → after.nesting = between →
      Follows 0 nesting (next value) (rest value) after) :
    Follows least nesting (reading >>= next) (parsed >>= rest) before := by
  unfold Follows at begins ⊢
  change Agrees _ _ _ (Reading.bind reading next before) (Parsed.bind parsed rest before.parser)
  unfold Reading.bind Parsed.bind
  generalize reading before = outcome at begins
  generalize parsed before.parser = told at begins
  cases begins with
  | @read value after moved nested =>
    have later := goes value after moved nested
    unfold Follows at later
    simp only
    generalize next value after = outcome at later ⊢
    generalize rest value after.parser = told at later ⊢
    cases later with
    | read further same => exact .read (moved.trans further) same
    | refused further => exact .refused ((moved.le (Nat.zero_le _)).trans further)
  | refused moved => exact .refused moved

theorem Follows.get {next : Cursor → Reading β} {rest : Parser → Parsed β}
    (goes : Follows least nesting (next before) (rest before.parser) before) :
    Follows least nesting (Reading.get >>= next) (Parsed.get >>= rest) before := goes

theorem follows_advance (inside : before.Inside) {lexeme : Lexeme}
    (found : before.peek = some lexeme) :
    Follows 1 before.nesting advance Relations.advance before := by
  have moved : Agrees 1 before.nesting before (.read () before.next) (.ok ((), before.next.parser)) :=
    .read (.next inside found) rfl
  rw [Cursor.parser_next] at moved
  exact moved

theorem takeName_eq (what : String) (cursor : Cursor) :
    takeName what cursor = match cursor.peek with
      | some ⟨.name name, line⟩ => .read (name, line) cursor.next
      | _ => .refused (cursor.fault (what ++ " is expected")) cursor := by
  unfold takeName
  change (match cursor.peek with
    | some ⟨.name name, line⟩ => (advance >>= fun _ => pure (name, line) : Reading (String × Nat))
    | _ => refuse (what ++ " is expected")) cursor = _
  cases cursor.peek with
  | none => rfl
  | some lexeme =>
    obtain ⟨token, line⟩ := lexeme
    cases token <;> rfl

theorem follows_takeName (inside : before.Inside) (what : String) :
    Follows 1 before.nesting (takeName what) (Relations.takeName what) before := by
  have refused := @follows_refuse (String × Nat) before 1 before.nesting inside
    (what ++ " is expected")
  unfold Follows at refused ⊢
  rw [takeName_eq, Relations.takeName]
  cases found : before.peek with
  | none =>
    rw [Cursor.parser_of_none found]
    exact refused
  | some lexeme =>
    obtain ⟨token, line⟩ := lexeme
    rw [(Cursor.parser_of_peek found).1]
    cases token with
    | mark mark => exact refused
    | name name => exact .read (.next inside found) rfl

theorem follows_takeMark (inside : before.Inside) (mark : Char) :
    Follows 1 before.nesting (takeMark mark) (Relations.takeMark mark) before := by
  unfold takeMark Relations.takeMark
  refine .get ?_
  rw [Cursor.parser_isMark]
  by_cases marked : before.isMark mark = true
  · obtain ⟨line, found⟩ := Cursor.peek_of_isMark marked
    rw [if_pos marked, if_pos marked]
    exact follows_advance inside found
  · rw [if_neg marked, if_neg marked]
    exact follows_refuse inside _

theorem follows_readSubject (inside : before.Inside) :
    Follows 1 before.nesting readSubject Relations.readSubject before := by
  unfold readSubject Relations.readSubject
  refine (follows_takeName inside _).bind ?_
  rintro ⟨objectType, line⟩ named moved nested
  rw [← nested]
  refine .get ?_
  rw [Cursor.parser_isMark]
  by_cases hash : named.isMark '#' = true
  · obtain ⟨_, found⟩ := Cursor.peek_of_isMark hash
    simp only [hash, if_true]
    refine (Follows.bind (follows_advance moved.inside found) ?_).loosen
    intro _ marked further same
    rw [← same]
    refine (Follows.bind (follows_takeName further.inside _) ?_).loosen
    intro member last final same
    rw [← same]
    exact follows_pure final.inside rfl _
  · simp only [hash]
    exact follows_pure moved.inside rfl _

/-- A loop that takes a lexeme in each turn ends before its turns do. -/
theorem follows_readJoined (mark : Char)
    (each : ∀ cursor : Cursor, cursor.Inside → cursor.nesting = nesting →
      Follows 1 nesting reading parsed cursor)
    (turns fewer : Nat) (inside : before.Inside) (nested : before.nesting = nesting)
    (enough : before.lexemes.length < turns + before.place)
    (left : before.lexemes.length ≤ fewer + before.place) :
    Follows 0 nesting (readJoined mark reading turns)
      (Relations.readJoined mark parsed fewer) before := by
  induction turns generalizing fewer before with
  | zero =>
    have bound := inside.place
    omega
  | succ turns ih =>
    by_cases marked : before.isMark mark = true
    · obtain ⟨_, found⟩ := Cursor.peek_of_isMark marked
      have here := (Cursor.parser_of_peek found).2
      cases fewer with
      | zero => omega
      | succ fewer =>
        unfold readJoined Relations.readJoined
        refine .get ?_
        rw [Cursor.parser_isMark, if_pos marked, if_pos marked]
        refine (Follows.bind (follows_advance inside found) ?_).loosen
        intro _ joined moved same
        refine (Follows.bind (each joined moved.inside (same.trans nested)) ?_).loosen
        intro one after further nested_after
        have first := moved.place
        have second := further.place
        have lexemes := further.lexemes.trans moved.lexemes
        have others := ih fewer further.inside nested_after (by rw [lexemes]; omega)
          (by rw [lexemes]; omega)
        refine others.bind ?_
        intro rest last final same
        rw [← same]
        exact follows_pure final.inside rfl _
    · have empty : Follows 0 nesting (pure [] : Reading (List α)) (pure []) before :=
        follows_pure inside nested []
      unfold readJoined
      cases fewer with
      | zero =>
        have ended : Relations.readJoined mark parsed 0 = (Parsed.get >>= fun _ => pure []) := rfl
        rw [ended]
        refine .get ?_
        rw [if_neg marked]
        exact empty
      | succ fewer =>
        unfold Relations.readJoined
        refine .get ?_
        rw [Cursor.parser_isMark, if_neg marked, if_neg marked]
        exact empty

/-- How many turns the loops of a reading are given, here and by the lexemes left. -/
theorem Cursor.turns_enough (cursor : Cursor) :
    cursor.lexemes.length < cursor.turns + cursor.place ∧
      cursor.lexemes.length ≤ cursor.parser.lexemes.length + cursor.place := by
  simp only [Cursor.turns, Cursor.parser, List.length_drop]
  omega

theorem follows_openParenthesis (inside : before.Inside) :
    Follows 0 (before.nesting + 1) openParenthesis
      (Parsed.modify fun parser => { parser with nesting := parser.nesting + 1 }) before := by
  have opened : Agrees 0 (before.nesting + 1) before
      (.read () { before with nesting := before.nesting + 1 }) (.ok ((), _)) :=
    .read ⟨rfl, Nat.le_refl _, inside.place, inside.furthest⟩ rfl
  exact opened

/-- A parenthesis is closed where one is open: nothing is taken from zero. -/
theorem follows_closeParenthesis (inside : before.Inside) (opened : before.nesting = nesting + 1) :
    Follows 0 nesting closeParenthesis
      (Parsed.modify fun parser => { parser with nesting := parser.nesting - 1 }) before := by
  have closed : Agrees 0 nesting before
      (.read () { before with nesting := before.nesting - 1 }) (.ok ((), _)) :=
    .read ⟨rfl, Nat.le_refl _, inside.place, inside.furthest⟩ (Nat.sub_eq_of_eq_add opened)
  unfold Follows closeParenthesis
  rw [if_neg (by omega)]
  exact closed

theorem follows_readTermOf {readExpression : Reading Expression}
    {parsedExpression : Option (Parsed Expression)}
    (inner : before.nesting < MAX_NESTING → ∃ parsed, parsedExpression = some parsed ∧
      ∀ cursor : Cursor, cursor.Inside → cursor.nesting = before.nesting + 1 →
        Follows 1 (before.nesting + 1) readExpression parsed cursor)
    (within : before.nesting ≤ MAX_NESTING) (inside : before.Inside) :
    Follows 1 before.nesting (readTermOf readExpression)
      (Relations.readTermOf parsedExpression) before := by
  unfold readTermOf Relations.readTermOf
  refine .get ?_
  rw [Cursor.parser_isMark]
  by_cases opened : before.isMark '(' = true
  · obtain ⟨_, found⟩ := Cursor.peek_of_isMark opened
    rw [if_pos opened, if_pos opened]
    refine .get ?_
    have counted : before.parser.nesting = before.nesting := rfl
    rw [counted]
    by_cases full : before.nesting = MAX_NESTING
    · simp only [full, beq_self_eq_true, if_true]
      rw [← full]
      exact follows_refuse inside _
    · have below : before.nesting < MAX_NESTING := by omega
      obtain ⟨parsed, rfl, reads⟩ := inner below
      have apart : (before.nesting == MAX_NESTING) = false := beq_false_of_ne full
      simp only [apart]
      refine Follows.bind (follows_advance inside found) ?_
      intro _ after moved same
      refine Follows.bind (follows_openParenthesis moved.inside) ?_
      intro _ opened further nested
      rw [same] at nested
      refine Follows.bind (reads opened further.inside nested).loosen ?_
      intro inner last final still
      refine Follows.bind (follows_takeMark final.inside _).loosen ?_
      intro _ marked past closing
      refine Follows.bind (follows_closeParenthesis past.inside (closing.trans still)) ?_
      intro _ closed done back
      rw [← back]
      exact follows_pure done.inside rfl _
  · rw [if_neg opened, if_neg opened]
    refine Follows.bind (follows_takeName inside _) ?_
    rintro ⟨name, line⟩ named moved same
    rw [← same]
    refine .get ?_
    rw [Cursor.parser_isWord]
    by_cases arrow : named.isWord "from" = true
    · obtain ⟨_, found⟩ := Cursor.peek_of_isWord arrow
      simp only [arrow, if_true]
      refine (Follows.bind (follows_advance moved.inside found) ?_).loosen
      intro _ marked further same
      rw [← same]
      refine (Follows.bind (follows_takeName further.inside _) ?_).loosen
      intro relation last final same
      rw [← same]
      exact follows_pure final.inside rfl _
    · simp only [arrow]
      exact follows_pure moved.inside rfl _

theorem follows_readExpressionOf {readTerm : Reading Expression} {parsedTerm : Parsed Expression}
    (term : ∀ cursor : Cursor, cursor.Inside → cursor.nesting = before.nesting →
      Follows 1 before.nesting readTerm parsedTerm cursor) (inside : before.Inside) :
    Follows 1 before.nesting (readExpressionOf readTerm)
      (Relations.readExpressionOf parsedTerm) before := by
  unfold readExpressionOf Relations.readExpressionOf
  refine Follows.bind (term before inside rfl) ?_
  intro first after moved same
  refine .get ?_
  rw [Cursor.parser_isMark, Cursor.parser_isMark]
  by_cases joins : (after.isMark '+' || after.isMark '&') = true
  · rw [if_pos joins, if_pos joins]
    have enough := after.turns_enough
    simp only
    refine Follows.bind (follows_readJoined _ term _ _ moved.inside same enough.1 enough.2) ?_
    intro terms last further still
    refine .get ?_
    rw [Cursor.parser_isMark, Cursor.parser_isMark]
    by_cases mixed : (last.isMark '+' || last.isMark '&') = true
    · rw [if_pos mixed, if_pos mixed]
      exact follows_refuse further.inside _
    · rw [if_neg mixed, if_neg mixed, ← still]
      split
      · exact follows_pure further.inside rfl _
      · exact follows_pure further.inside rfl _
  · rw [if_neg joins, if_neg joins, ← same]
    exact follows_pure moved.inside rfl _

/-- The counter of parentheses bounds the descent before its turns do. -/
theorem follows_readExpression (depth : Nat) (inside : before.Inside)
    (counted : before.nesting + depth = MAX_NESTING) :
    Follows 1 before.nesting (readExpression (depth + 1)) (Relations.readExpression depth)
      before := by
  induction depth generalizing before with
  | zero =>
    unfold readExpression Relations.readExpression
    refine follows_readExpressionOf ?_ inside
    intro cursor here same
    rw [← same]
    exact follows_readTermOf (fun below => by omega) (by omega) here
  | succ depth ih =>
    unfold readExpression Relations.readExpression
    refine follows_readExpressionOf ?_ inside
    intro cursor here same
    rw [← same]
    refine follows_readTermOf (fun _ => ⟨_, rfl, ?_⟩) (by omega) here
    intro opened within nested
    rw [← nested]
    exact ih within (by omega)

theorem follows_readRelation (inside : before.Inside) :
    Follows 1 before.nesting readDeclaration.readRelation
      Relations.readDeclaration.readRelation before := by
  unfold readDeclaration.readRelation Relations.readDeclaration.readRelation
  refine Follows.bind (follows_takeName inside _) ?_
  rintro ⟨name, line⟩ named moved same
  refine Follows.bind (follows_takeMark moved.inside _).loosen ?_
  intro _ marked further still
  refine Follows.bind (follows_readSubject further.inside).loosen ?_
  intro first last past nested
  refine .get ?_
  have enough := last.turns_enough
  refine Follows.bind (follows_readJoined _ (fun cursor within same => ?_) _ _ past.inside nested
    enough.1 enough.2) ?_
  · rw [← same]
    exact follows_readSubject within
  · intro subjects final done again
    exact follows_pure done.inside (again.trans (still.trans same)) _

theorem follows_readPermission (inside : before.Inside) (outside : before.nesting = 0) :
    Follows 1 before.nesting readDeclaration.readPermission
      Relations.readDeclaration.readPermission before := by
  unfold readDeclaration.readPermission Relations.readDeclaration.readPermission
  refine Follows.bind (follows_takeName inside _) ?_
  rintro ⟨name, line⟩ named moved same
  refine Follows.bind (follows_takeMark moved.inside _).loosen ?_
  intro _ marked further still
  have counted : marked.nesting + MAX_NESTING = MAX_NESTING := by omega
  refine Follows.bind (follows_readExpression MAX_NESTING further.inside counted).loosen ?_
  intro expression last past nested
  exact follows_pure past.inside (nested.trans (still.trans same)) _

/-- A keyword that is not one is given back: the place it was taken from is there. -/
theorem agrees_giveBack {name message : String} {line : Nat} (inside : before.Inside)
    (found : before.peek = some ⟨.name name, line⟩) :
    Agrees least nesting before ((giveBack >>= fun _ => (refuse message : Reading α)) before.next)
      (.error (before.parser.fault message, before.parser)) := by
  have bound := inside.furthest
  have here := (Cursor.parser_of_peek found).2
  have furthest : before.next.furthest ≤ before.lexemes.length + 1 := by
    simp only [Cursor.next]
    omega
  have back : (giveBack >>= fun _ => (refuse message : Reading α)) before.next =
      .refused (before.fault message) { before with furthest := before.next.furthest } := rfl
  have refused : Agrees least nesting before
      (.refused (before.fault message) { before with furthest := before.next.furthest } : Outcome α)
      (.error (before.fault message, before.parser)) :=
    .refused ⟨rfl, Nat.le_refl _, inside.place, furthest⟩
  rw [back, Cursor.parser_fault]
  exact refused

/-- What is read after a keyword, from where it was taken. -/
theorem Follows.after_keyword (follows : Follows least nesting reading parsed before.next)
    (inside : before.Inside) {lexeme : Lexeme} (found : before.peek = some lexeme) :
    Agrees 1 nesting before (reading before.next) (parsed before.next.parser) := by
  have moved := Moved.next inside found
  unfold Follows at follows
  generalize reading before.next = outcome at follows ⊢
  generalize parsed before.next.parser = told at follows ⊢
  cases follows with
  | read further nested => exact .read ((moved.trans further).le (Nat.le_add_right _ _)) nested
  | refused further => exact .refused ((moved.le (Nat.zero_le _)).trans further)

theorem takeName_underlying {what name : String} {line : Nat}
    (found : before.peek = some ⟨.name name, line⟩) :
    Relations.takeName what before.parser = .ok ((name, line), before.next.parser) := by
  rw [Cursor.parser_next, Relations.takeName, (Cursor.parser_of_peek found).1]
  rfl

/-- A keyword is taken, and what is read after it is read; without one there is a fault. -/
theorem follows_keyword (inside : before.Inside) (what : String) {rest : String × Nat → Reading α}
    (without : ∀ fault, Relations.takeName what before.parser = .error fault →
      parsed before.parser = .error fault)
    (goes : ∀ keyword line, before.peek = some ⟨.name keyword, line⟩ →
      Agrees 1 nesting before (rest (keyword, line) before.next) (parsed before.parser)) :
    Follows 1 nesting (takeName what >>= rest) parsed before := by
  have named := follows_takeName inside what
  unfold Follows at named ⊢
  change Agrees _ _ _ (Reading.bind (takeName what) _ before) _
  unfold Reading.bind
  cases taken : takeName what before with
  | read value after =>
    rw [takeName_eq] at taken
    split at taken
    · next name line found =>
      cases taken
      exact goes name line found
    · cases taken
  | refused fault after =>
    rw [taken] at named
    generalize told : Relations.takeName what before.parser = ended at named
    cases named with
    | refused moved =>
      rw [without _ told]
      exact .refused moved
  | underflow =>
    rw [taken] at named
    cases named
  | outOfTurns =>
    rw [taken] at named
    cases named

theorem follows_readDeclaration (inside : before.Inside) (outside : before.nesting = 0) :
    Follows 1 before.nesting readDeclaration Relations.readDeclaration before := by
  unfold readDeclaration
  refine follows_keyword inside _ (fun fault refused => ?_) ?_
  · rw [Relations.readDeclaration, refused]
  intro keyword line found
  have moved := Moved.next inside found
  rw [Relations.readDeclaration, takeName_underlying found]
  simp only
  by_cases relation : keyword = "relation"
  · rw [if_pos relation, if_pos relation]
    exact (follows_readRelation moved.inside).after_keyword inside found
  rw [if_neg relation, if_neg relation]
  by_cases permission : keyword = "permission"
  · rw [if_pos permission, if_pos permission]
    exact (follows_readPermission moved.inside outside).after_keyword inside found
  · rw [if_neg permission, if_neg permission]
    exact agrees_giveBack inside found

theorem follows_readDeclarations (turns fewer : Nat) (inside : before.Inside)
    (outside : before.nesting = 0) (enough : before.lexemes.length < turns + before.place)
    (left : before.lexemes.length ≤ fewer + before.place) :
    Follows 0 0 (readDeclarations turns) (Relations.readDeclarations fewer) before := by
  induction turns generalizing fewer before with
  | zero =>
    have bound := inside.place
    omega
  | succ turns ih =>
    unfold readDeclarations
    cases found : before.peek with
    | none =>
      have unmarked : before.isMark '\x7d' = false := by
        rw [Cursor.isMark, found]
      have refuses : Relations.readDeclarations fewer before.parser =
          Relations.refuse "`\x7d` is expected" before.parser := by
        have empty := Cursor.parser_of_none found
        have marked := (Cursor.parser_isMark before '\x7d').trans unmarked
        cases fewer with
        | zero => simp [Relations.readDeclarations, marked, Relations.refuse]
        | succ fewer =>
          rw [Relations.readDeclarations, Parsed.get_bind]
          simp [marked, empty]
      have refused := @follows_refuse (List Declaration) before 0 0 inside "`\x7d` is expected"
      unfold Follows at refused ⊢
      rw [refuses]
      change Agrees 0 0 before ((if before.isMark '\x7d' = true then _
        else if before.peek.isNone = true then _ else _ : Reading (List Declaration)) before) _
      simp only [unmarked, found, Bool.false_eq_true, if_false, Option.isNone_none, if_true]
      exact refused
    | some lexeme =>
      have here := Cursor.parser_of_peek found
      cases fewer with
      | zero => omega
      | succ fewer =>
        unfold Relations.readDeclarations
        refine .get ?_
        rw [Cursor.parser_isMark]
        by_cases marked : before.isMark '\x7d' = true
        · rw [if_pos marked, if_pos marked]
          exact follows_pure inside outside _
        have some_left : ¬ before.peek.isNone = true := by simp [found]
        have not_empty : ¬ before.parser.lexemes.isEmpty = true := by simp [here.1]
        rw [if_neg marked, if_neg marked, if_neg some_left, if_neg not_empty]
        refine (Follows.bind (follows_readDeclaration inside outside) ?_).loosen
        intro declaration after moved same
        have further := moved.place
        have lexemes := moved.lexemes
        refine Follows.bind (ih fewer moved.inside (same.trans outside) (by rw [lexemes]; omega)
          (by rw [lexemes]; omega)) ?_
        intro rest last past still
        exact follows_pure past.inside still _

theorem follows_readBody (inside : before.Inside) (outside : before.nesting = 0) :
    Follows 1 before.nesting readDefinition.readBody Relations.readDefinition.readBody before := by
  unfold readDefinition.readBody Relations.readDefinition.readBody
  refine Follows.bind (follows_takeName inside _) ?_
  rintro ⟨name, line⟩ named moved same
  refine Follows.bind (follows_takeMark moved.inside _).loosen ?_
  intro _ opened further still
  refine .get ?_
  have enough := opened.turns_enough
  refine Follows.bind (follows_readDeclarations _ _ further.inside (by omega) enough.1 enough.2) ?_
  intro declarations last past nested
  refine Follows.bind (follows_takeMark past.inside _).loosen ?_
  intro _ closed done again
  exact follows_pure done.inside (by omega) _

/-- The reading of a definition, outside of any parenthesis. -/
theorem follows_readDefinition (inside : before.Inside) (outside : before.nesting = 0) :
    Follows 1 0 readDefinition Relations.readDefinition before := by
  unfold readDefinition
  refine follows_keyword inside _ (fun fault refused => ?_) ?_
  · rw [Relations.readDefinition, refused]
  intro keyword line found
  have moved := Moved.next inside found
  rw [Relations.readDefinition, takeName_underlying found]
  simp only
  by_cases definition : keyword = "definition"
  · rw [if_pos definition, if_pos definition, ← outside]
    exact (follows_readBody moved.inside outside).after_keyword inside found
  · rw [if_neg definition, if_neg definition]
    exact agrees_giveBack inside found

/-- A place a turn of the loop over definitions may begin or end at. -/
structure Cursor.Between (lexemes : List Lexeme) (cursor : Cursor) : Prop where
  whole : cursor.lexemes = lexemes
  place : cursor.place ≤ lexemes.length + 1
  furthest : cursor.furthest ≤ lexemes.length + 1
  outside : cursor.nesting = 0

theorem Cursor.Between.inside {lexemes : List Lexeme} {lexeme : Lexeme}
    (between : cursor.Between lexemes) (found : cursor.peek = some lexeme) : cursor.Inside where
  place := Nat.le_of_lt (Cursor.parser_of_peek found).2
  furthest := by
    rw [between.whole]
    exact between.furthest

theorem skipLexemes_other {token : Token} {line depth : Nat} {rest : List Lexeme}
    (opens : token = .mark '{' → False) (closes : token = .mark '}' → False)
    (named : token = .name "definition" → False) :
    skipLexemes depth (⟨token, line⟩ :: rest) = skipLexemes depth rest := by
  rw [skipLexemes]
  split
  · next same => exact (opens same).elim
  · next same => exact (closes same).elim
  · next same => exact (named same).elim
  · rfl

/-- Skipping goes on to the next definition, or to the end, as the parser of the
lexemes left does. -/
theorem skipLoop_follows {lexemes : List Lexeme} (turns depth : Nat)
    (between : before.Between lexemes) (some_turn : 0 < turns)
    (enough : lexemes.length < turns + before.place) :
    ∃ after, skipLoop turns depth before = some after ∧ after.Between lexemes ∧
      before.place ≤ after.place ∧
      after.parser.lexemes = skipLexemes depth before.parser.lexemes := by
  induction turns generalizing depth before with
  | zero => omega
  | succ turns ih =>
    unfold skipLoop
    cases found : before.peek with
    | none =>
      refine ⟨before, rfl, between, Nat.le_refl _, ?_⟩
      rw [Cursor.parser_of_none found]
      rfl
    | some lexeme =>
      have here := Cursor.parser_of_peek found
      rw [between.whole] at here
      have on : before.next.Between lexemes := by
        have bound := between.furthest
        refine ⟨between.whole, Nat.le_succ_of_le here.2, ?_, between.outside⟩
        simp only [Cursor.next]
        omega
      have goes (deeper : Nat) : ∃ after, skipLoop turns deeper before.next = some after ∧
          after.Between lexemes ∧ before.place ≤ after.place ∧
          after.parser.lexemes = skipLexemes deeper (lexemes.drop (before.place + 1)) := by
        have enough_left : lexemes.length < turns + before.next.place := by
          simp only [Cursor.next]
          omega
        obtain ⟨after, skipped, reached, later, same⟩ := ih deeper on (by omega) enough_left
        refine ⟨after, skipped, reached, Nat.le_of_succ_le later, ?_⟩
        rw [same, Cursor.parser_next, here.1]
        rfl
      rw [here.1]
      obtain ⟨token, line⟩ := lexeme
      simp only
      split
      · exact goes (depth + 1)
      · exact goes (depth - 1)
      · have top_level : skipLexemes depth (⟨.name "definition", line⟩ ::
            lexemes.drop (before.place + 1)) =
            if depth = 0 then ⟨.name "definition", line⟩ :: lexemes.drop (before.place + 1)
            else skipLexemes depth (lexemes.drop (before.place + 1)) := rfl
        rw [top_level]
        by_cases top : depth = 0
        · rw [if_pos top, if_pos top]
          exact ⟨before, rfl, between, Nat.le_refl _, here.1⟩
        · rw [if_neg top, if_neg top]
          exact goes depth
      · next opens closes named =>
        rw [skipLexemes_other opens closes named]
        exact goes depth

/-- What is told of a turn of the loop over the lexemes of a source. -/
structure Turn.Sound (lexemes : List Lexeme) (one : Turn) : Prop where
  outside : one.before.nesting = 0
  some_left : one.before.place < lexemes.length
  takes : one.before.place < one.after.place
  ends : one.after.place ≤ lexemes.length + 1
  furthest : one.after.furthest ≤ lexemes.length + 1

/-- A turn from where a lexeme is left reads what the parser of the lexemes left
reads, or notes its fault and skips as it does. -/
theorem turn_sound {lexemes : List Lexeme} {lexeme : Lexeme} (between : before.Between lexemes)
    (found : before.peek = some lexeme) :
    ∃ one, turn before = some one ∧ one.before = before ∧ one.Sound lexemes ∧
      one.after.Between lexemes ∧
      match one.told with
      | .ok definition =>
        Relations.readDefinition before.parser = .ok (definition, one.after.parser)
      | .error fault => ∃ stopped,
        Relations.readDefinition before.parser = .error (fault, stopped) ∧
          one.after.parser = Relations.skipToNextDefinition stopped := by
  have here := (Cursor.parser_of_peek found).2
  rw [between.whole] at here
  have follows := follows_readDefinition (between.inside found) between.outside
  unfold Follows at follows
  unfold turn
  generalize readDefinition before = outcome at follows ⊢
  generalize told : Relations.readDefinition before.parser = ended at follows ⊢
  cases follows with
  | @read definition after moved nested =>
    have reached := moved.inside.place
    have furthest := moved.inside.furthest
    rw [moved.lexemes, between.whole] at reached furthest
    refine ⟨⟨before, .ok definition, after⟩, rfl, rfl, ?_, ?_, rfl⟩
    · exact ⟨between.outside, here, moved.place, Nat.le_succ_of_le reached, furthest⟩
    · exact ⟨moved.lexemes.trans between.whole, Nat.le_succ_of_le reached, furthest, nested⟩
  | @refused fault stopped moved =>
    have reached := moved.inside.place
    have furthest := moved.inside.furthest
    rw [moved.lexemes, between.whole] at reached furthest
    have whole := moved.lexemes.trans between.whole
    have past : Cursor.Between lexemes { stopped.next with nesting := 0 } := by
      refine ⟨whole, Nat.succ_le_succ reached, ?_, rfl⟩
      simp only [Cursor.next]
      omega
    have enough : lexemes.length < stopped.turns + (stopped.place + 1) := by
      rw [Cursor.turns, whole]
      omega
    obtain ⟨after, skipped, on, later, left⟩ := skipLoop_follows stopped.turns 0 past
      (Nat.succ_pos _) enough
    refine ⟨⟨before, .error fault, after⟩, ?_, rfl, ?_, on, stopped.parser, rfl, ?_⟩
    · simp only [skipToNextDefinition, skipped]
      rfl
    · have first := moved.place
      have next_later : stopped.place + 1 ≤ after.place := later
      exact ⟨between.outside, here, by simp only; omega, on.place, on.furthest⟩
    · have tail : ({ stopped.next with nesting := 0 } : Cursor).parser.lexemes =
          stopped.parser.lexemes.tail := congrArg Parser.lexemes stopped.parser_next
      rw [tail] at left
      unfold Relations.skipToNextDefinition
      rw [← left]
      unfold Cursor.parser
      rw [on.whole, whole, on.outside]

/-- From any place between definitions, the loop ends in so many turns at most as
lexemes are left, and reads what the loop over the lexemes left reads. -/
theorem turns_sound {lexemes : List Lexeme} (fuel : Nat) (faults : SchemaFaults)
    (between : before.Between lexemes) (enough : lexemes.length ≤ fuel + before.place) :
    ∃ turns, Turns before turns ∧ (∀ one ∈ turns, one.Sound lexemes) ∧
      Relations.readDefinitions fuel before.parser faults =
        (turns.filterMap Turn.definition?, turns.foldl Turn.note faults) := by
  induction fuel generalizing before faults with
  | zero =>
    have nothing : before.peek = none := by
      rw [Cursor.peek, List.getElem?_eq_none_iff, between.whole]
      omega
    exact ⟨[], .ended nothing, nofun, rfl⟩
  | succ fuel ih =>
    cases found : before.peek with
    | none =>
      refine ⟨[], .ended found, nofun, ?_⟩
      rw [Relations.readDefinitions, Cursor.parser_of_none found]
      rfl
    | some lexeme =>
      obtain ⟨⟨start, told, after⟩, made, rfl, sound, on, reads⟩ := turn_sound between found
      have takes := sound.takes
      have some_left : ¬ start.parser.lexemes.isEmpty = true := by
        simp [(Cursor.parser_of_peek found).1]
      unfold Relations.readDefinitions
      rw [if_neg some_left]
      simp only at on reads takes enough
      cases told with
      | ok definition =>
        obtain ⟨rest, later, all, same⟩ := ih faults on (by omega)
        refine ⟨_ :: rest, .more found made later, List.forall_mem_cons.mpr ⟨sound, all⟩, ?_⟩
        simp only at reads
        rw [reads]
        simp only [same]
        rfl
      | error fault =>
        obtain ⟨rest, later, all, same⟩ := ih (faults.note fault) on (by omega)
        obtain ⟨stopped, refused, skipped⟩ := reads
        refine ⟨_ :: rest, .more found made later, List.forall_mem_cons.mpr ⟨sound, all⟩, ?_⟩
        rw [refused]
        simp only [← skipped, same]
        rfl

theorem between_start (lexemes : List Lexeme) : (Cursor.start lexemes).Between lexemes :=
  ⟨rfl, Nat.zero_le _, Nat.zero_le _, rfl⟩

/-- A fault noted is told: where none is, every turn read a definition. -/
theorem read_of_none_told {turns : List Turn} {faults : SchemaFaults}
    (none_told : (turns.foldl Turn.note faults).shown = []) :
    faults.shown = [] ∧ ∀ one ∈ turns, ∃ definition, one.told = .ok definition := by
  induction turns generalizing faults with
  | nil => exact ⟨none_told, nofun⟩
  | cons one rest ih =>
    obtain ⟨before_told, all⟩ := ih none_told
    unfold Turn.note at before_told
    split at before_told
    · next definition told =>
      exact ⟨before_told, List.forall_mem_cons.mpr ⟨⟨definition, told⟩, all⟩⟩
    · exact absurd before_told (SchemaFaults.note_shown _ _)

/-- The loop over the definitions of a source ends, takes a lexeme in each turn,
keeps its place and its counter within their bounds, and notes a fault in each
turn that read no definition: a schema that compiles holds every definition its
tokens are. -/
theorem recovery_ends_and_hides_nothing :
    (∀ lexemes : List Lexeme, ∃ turns, Turns (.start lexemes) turns ∧
      (∀ one ∈ turns, one.Sound lexemes) ∧
      Relations.readDefinitions lexemes.length (.start lexemes) .default =
        (turns.filterMap Turn.definition?, turns.foldl Turn.note .default)) ∧
    ∀ source schema, compileSchema source = .ok schema →
      ∃ lexemes turns, readLexemes source = .ok lexemes ∧ Turns (.start lexemes) turns ∧
        Derives (tokensOf lexemes) (abstractOf (turns.filterMap Turn.definition?)) ∧
        ∀ one ∈ turns, ∃ definition, one.told = .ok definition ∧
          schema.types.get? definition.name = some definition.typeClauses.form := by
  have runs (lexemes : List Lexeme) : ∃ turns, Turns (.start lexemes) turns ∧
      (∀ one ∈ turns, one.Sound lexemes) ∧
      Relations.readDefinitions lexemes.length (.start lexemes) .default =
        (turns.filterMap Turn.definition?, turns.foldl Turn.note .default) :=
    turns_sound lexemes.length .default (between_start lexemes) (Nat.le_add_right _ _)
  refine ⟨runs, ?_⟩
  intro source schema compiled
  have bounded := ((compileSchema_eq_ok_iff source schema).mp compiled).1
  cases read : readLexemes source with
  | error fault =>
    rw [compileSchema, if_neg (Nat.not_lt.mpr bounded), read] at compiled
    cases compiled
  | ok lexemes =>
    obtain ⟨turns, made, -, same⟩ := runs lexemes
    obtain ⟨none_told, formed, rfl, -⟩ := (compileSchema_of_lexemes bounded read same schema).mp
      compiled
    have derived := derives_of_readDefinitions lexemes.length (.start lexemes) .default (le_refl _)
      (by rw [same]; exact none_told)
    rw [same] at derived
    refine ⟨lexemes, turns, rfl, made, derived, ?_⟩
    intro one inside
    obtain ⟨definition, told⟩ := (read_of_none_told none_told).2 one inside
    refine ⟨definition, told, ?_⟩
    rw [AbstractSchema.form_types_get? formed]
    refine ⟨definition.typeClauses, ?_, rfl, rfl⟩
    have kept : definition ∈ turns.filterMap Turn.definition? :=
      List.mem_filterMap.mpr ⟨one, inside, by rw [Turn.definition?, told]⟩
    exact List.mem_map_of_mem kept

end Saffui.Authz.Relations.Positions
