import Mathlib.Data.List.Induction
import Saffui.SdJwt.Presentation

/-!
# Cut at the tildes

A presentation is its token, its disclosures and its key binding token with
tildes between them: `split_presentation` cuts exactly what is written so, and
in one way only. `select_disclosures` and `issued` write nothing else.
-/

namespace Saffui

namespace Text

theorem not_mem_splitOn {mark : Char} {text part : List Char} (inside : part ∈ text.splitOn mark) :
    mark ∉ part := by
  induction text generalizing part with
  | nil =>
    rw [List.splitOn_nil] at inside
    rw [List.mem_singleton.mp inside]
    exact List.not_mem_nil
  | cons first rest ih =>
    rw [List.splitOn_cons_eq_if_modifyHead] at inside
    split at inside
    · rcases List.mem_cons.mp inside with rfl | later
      · exact List.not_mem_nil
      · exact ih later
    · next other =>
      cases parted : rest.splitOn mark with
      | nil => exact absurd parted (List.splitOn_ne_nil mark rest)
      | cons head tail =>
        rw [parted, List.modifyHead_cons] at inside
        rcases List.mem_cons.mp inside with rfl | later
        · have absent : mark ∉ head := ih (by rw [parted]; exact List.mem_cons_self)
          intro there
          rcases List.mem_cons.mp there with same | within
          · exact other (by rw [same]; exact beq_self_eq_true first)
          · exact absent within
        · exact ih (by rw [parted]; exact List.mem_cons_of_mem _ later)

/-- No part of a text holds the mark between them. -/
theorem not_mem_split {mark : Char} {text part : String} (inside : part ∈ split mark text) :
    mark ∉ part.toList := by
  obtain ⟨characters, among, rfl⟩ := List.mem_map.mp inside
  rw [String.toList_ofList]
  exact not_mem_splitOn among

end Text

namespace SdJwt
open Foundation Crypto

/-- A token and its disclosures, each followed by a tilde. -/
def written (issuerToken : String) (disclosures : List String) : String :=
  "~".intercalate (issuerToken :: disclosures) ++ "~"

/-- What may stand between two tildes. -/
def Piece (text : String) : Prop := text ≠ "" ∧ '~' ∉ text.toList

/-- Parts a presentation is made of. -/
structure Parts.Formed (parts : Parts) : Prop where
  token : Piece parts.issuerToken
  disclosures : ∀ disclosure ∈ parts.disclosures, Piece disclosure
  keyBinding : ∀ token, parts.keyBinding = some token → Piece token
  hashed : parts.hashed = written parts.issuerToken parts.disclosures

/-- A presentation as it travels. -/
def Parts.text (parts : Parts) : String := parts.hashed ++ parts.keyBinding.getD ""

theorem splitLast_intercalate {before : List String} {last : String} (some_part : before ≠ [])
    (apart : ∀ part ∈ before ++ [last], '~' ∉ part.toList) :
    splitLast ("~".intercalate before ++ "~" ++ last) = some ("~".intercalate before, last) := by
  have joined : "~".intercalate before ++ "~" ++ last = "~".intercalate (before ++ [last]) := by
    rw [String.intercalate_append_of_ne_nil some_part (by simp), String.intercalate_singleton]
  have parted := Text.split_intercalate (by simp : before ++ [last] ≠ []) apart
  obtain ⟨end_part, rest, reversed⟩ : ∃ end_part rest, before.reverse = end_part :: rest := by
    cases turned : before.reverse with
    | nil => exact absurd (List.reverse_eq_nil_iff.mp turned) some_part
    | cons end_part rest => exact ⟨end_part, rest, rfl⟩
  have mark : String.singleton '~' = "~" := rfl
  rw [mark] at parted
  rw [splitLast, joined, parted, List.reverse_append, List.reverse_singleton, List.singleton_append,
    reversed]
  dsimp only
  rw [← reversed, List.reverse_reverse]

theorem splitLast_eq_some {presented head tail : String}
    (parted : splitLast presented = some (head, tail)) :
    ∃ before, before ≠ [] ∧ head = "~".intercalate before ∧ (∀ part ∈ before, '~' ∉ part.toList) ∧
      '~' ∉ tail.toList ∧ presented = head ++ "~" ++ tail := by
  have mark : String.singleton '~' = "~" := rfl
  have whole := Text.intercalate_of_split '~' presented
  have apart : ∀ part ∈ Text.split '~' presented, '~' ∉ part.toList := fun part =>
    Text.not_mem_split
  unfold splitLast at parted
  split at parted
  · next last before rest reversed =>
    cases parted
    have listed : Text.split '~' presented = (before :: rest).reverse ++ [tail] := by
      rw [← List.reverse_reverse (Text.split '~' presented), reversed, List.reverse_cons]
    have some_part : (before :: rest).reverse ≠ [] := by simp
    rw [listed] at whole apart
    refine ⟨_, some_part, rfl, fun part inside => apart part (List.mem_append_left _ inside),
      apart _ (by simp), ?_⟩
    rw [← whole, mark, String.intercalate_append_of_ne_nil some_part (by simp),
      String.intercalate_singleton]
  · cases parted

/-- A text is cut into parts exactly where it is those parts written. -/
theorem splitPresentation_eq_ok {presented : String} {parts : Parts} :
    splitPresentation presented = .ok parts ↔ parts.Formed ∧ presented = parts.text := by
  have mark : String.singleton '~' = "~" := rfl
  constructor
  · intro cut
    unfold splitPresentation at cut
    split at cut
    · cases cut
    next head tail parted =>
    obtain ⟨before, some_part, rfl, apart, tail_plain, whole⟩ := splitLast_eq_some parted
    have listed := Text.split_intercalate some_part apart
    rw [mark] at listed
    rw [listed] at cut
    cases before with
    | nil => cases cut
    | cons issuerToken disclosures =>
      dsimp only at cut
      obtain ⟨token_plain, plain⟩ := List.forall_mem_cons.mp apart
      split at cut
      · cases cut
      next some_token =>
      split at cut
      · cases cut
      next some_disclosures =>
      cases cut
      refine ⟨⟨⟨some_token, token_plain⟩, fun disclosure inside => ⟨?_, plain _ inside⟩, ?_, rfl⟩, ?_⟩
      · intro blank
        exact some_disclosures (List.any_eq_true.mpr ⟨disclosure, inside, decide_eq_true blank⟩)
      · intro token bound
        dsimp only at bound
        split at bound
        · cases bound
        · next some_tail =>
          cases bound
          exact ⟨some_tail, tail_plain⟩
      · rw [whole, Parts.text]
        dsimp only
        split
        · next blank => rw [blank, Option.getD_none]
        · rfl
  · intro formed
    obtain ⟨formed, rfl⟩ := formed
    obtain ⟨issuerToken, disclosures, keyBinding, hashed⟩ := parts
    have hashed_so : hashed = written issuerToken disclosures := formed.hashed
    subst hashed_so
    have tail_plain : '~' ∉ (keyBinding.getD "").toList := by
      cases keyBinding with
      | none => simp
      | some token => exact (formed.keyBinding token rfl).2
    have plain : ∀ part ∈ issuerToken :: disclosures, '~' ∉ part.toList :=
      List.forall_mem_cons.mpr ⟨formed.token.2, fun part inside => (formed.disclosures part inside).2⟩
    have apart : ∀ part ∈ (issuerToken :: disclosures) ++ [keyBinding.getD ""], '~' ∉ part.toList := by
      intro part inside
      rcases List.mem_append.mp inside with before | last
      · exact plain part before
      · rw [List.mem_singleton.mp last]
        exact tail_plain
    have cut := splitLast_intercalate (List.cons_ne_nil _ _) apart
    have listed := Text.split_intercalate (List.cons_ne_nil _ _) plain
    rw [mark] at listed
    rw [splitPresentation, Parts.text, written, cut]
    dsimp only
    rw [listed]
    dsimp only
    have no_blank : ¬(disclosures.any fun disclosure => disclosure = "") = true := by
      intro found
      obtain ⟨disclosure, inside, blank⟩ := List.any_eq_true.mp found
      exact (formed.disclosures disclosure inside).1 (of_decide_eq_true blank)
    rw [if_neg formed.token.1, if_neg no_blank]
    cases keyBinding with
    | none => rfl
    | some token =>
      have some_token := (formed.keyBinding token rfl).1
      simp only [Option.getD_some, if_neg some_token]

theorem foldl_written (issuerToken : String) (disclosures : List String) :
    disclosures.foldl (fun text disclosure => text ++ disclosure ++ "~") (issuerToken ++ "~") =
      written issuerToken disclosures := by
  induction disclosures using List.reverseRecOn with
  | nil => rw [List.foldl_nil, written, String.intercalate_singleton]
  | append_singleton before last ih =>
    rw [List.foldl_append, ih, List.foldl_cons, List.foldl_nil, written, written, ← List.cons_append,
      String.intercalate_append_of_ne_nil (List.cons_ne_nil _ _) (List.cons_ne_nil _ _),
      String.intercalate_singleton]

theorem formed_written {issuerToken : String} {disclosures : List String}
    (token : Piece issuerToken) (each : ∀ disclosure ∈ disclosures, Piece disclosure) :
    Parts.Formed ⟨issuerToken, disclosures, none, written issuerToken disclosures⟩ :=
  { token, disclosures := each, hashed := rfl, keyBinding := fun _ absent => by cases absent }

theorem splitPresentation_written {issuerToken : String} {disclosures : List String}
    (token : Piece issuerToken) (each : ∀ disclosure ∈ disclosures, Piece disclosure) :
    splitPresentation (written issuerToken disclosures) =
      .ok ⟨issuerToken, disclosures, none, written issuerToken disclosures⟩ :=
  splitPresentation_eq_ok.mpr ⟨formed_written token each, by simp [Parts.text]⟩

variable (serde : SerdeJson)

/-- Whether a disclosure is one a holder keeps. -/
def kept (keep : Disclosure → Bool) (encoded : String) : Bool :=
  match Disclosure.read serde encoded with
  | .ok disclosure => keep disclosure
  | .error _ => false

variable {serde}

theorem foldlM_kept {keep : Disclosure → Bool} {disclosures : List String} {start result : String} :
    disclosures.foldlM (fun presentation encoded => do
      let disclosure ← Disclosure.read serde encoded
      return if keep disclosure then presentation ++ encoded ++ "~" else presentation) start =
        .ok result ↔
      (∀ encoded ∈ disclosures, ∃ disclosure, Disclosure.read serde encoded = .ok disclosure) ∧
        result = (disclosures.filter (kept serde keep)).foldl
          (fun text disclosure => text ++ disclosure ++ "~") start := by
  induction disclosures generalizing start with
  | nil =>
    simp only [List.foldlM_nil, List.not_mem_nil, false_implies, implies_true, true_and,
      List.filter_nil, List.foldl_nil]
    exact ⟨fun same => (Except.ok.inj same).symm, fun same => by rw [same]; rfl⟩
  | cons encoded rest ih =>
    rw [List.foldlM_cons, List.forall_mem_cons]
    cases read : Disclosure.read serde encoded with
    | error refused =>
      constructor
      · intro ran
        cases ran
      · intro readable
        obtain ⟨⟨⟨disclosure, same⟩, -⟩, -⟩ := readable
        cases same
    | ok disclosure =>
      have keeps : kept serde keep encoded = keep disclosure := by rw [kept, read]
      have step := @ih (if keep disclosure then start ++ encoded ++ "~" else start)
      refine step.trans ?_
      by_cases wanted : keep disclosure = true
      · rw [List.filter_cons, keeps, if_pos wanted, if_pos wanted, List.foldl_cons]
        simp
      · rw [List.filter_cons, keeps, if_neg wanted, if_neg wanted]
        simp

/-- What a holder sends: the token, and the disclosures that are kept, in their order. -/
theorem selectDisclosures_eq_ok {issued presentation : String} {keep : Disclosure → Bool} :
    selectDisclosures serde issued keep = .ok presentation ↔
      ∃ parts, splitPresentation issued = .ok parts ∧ parts.keyBinding = none ∧
        (∀ encoded ∈ parts.disclosures, ∃ disclosure, Disclosure.read serde encoded = .ok disclosure) ∧
        presentation = written parts.issuerToken (parts.disclosures.filter (kept serde keep)) := by
  rw [selectDisclosures, bind_eq_ok]
  refine exists_congr fun parts => and_congr_right fun _ => ?_
  have ended : (parts.disclosures.foldlM (fun presentation encoded => do
      let disclosure ← Disclosure.read serde encoded
      return if keep disclosure then presentation ++ encoded ++ "~" else presentation)
      (parts.issuerToken ++ "~") = .ok presentation) ↔ _ := foldlM_kept
  rw [foldl_written] at ended
  rw [bind_eq_ok, ended]
  simp

end SdJwt

end Saffui
