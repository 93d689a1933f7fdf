import Saffui.JsonText
import Saffui.SdJwt.Revealed
import Saffui.Utf8

/-!
# Sealing

`seal_digests` of `crypto/src/sd_jwt/conceal.rs`: what is veiled stays veiled
when its digests are padded and sorted. The digests it adds are of salts drawn
on the way, and none of those stood anywhere before: a digest is `Born` of the
salt that its text was made with.
-/

namespace Saffui.SdJwt
open Foundation Foundation.Outcome Crypto

variable (serde : SerdeJson) (provider : CryptoProvider)

/-- The text of a disclosure. -/
def disclosureText (salt : String) (rest : List Json) : String :=
  Base64.encode (Text.utf8 ((Json.array (.string salt :: rest)).write serde.float))

/-- A text made with the salt drawn at some point: the salt alone, or the text
of a disclosure. -/
def MadeWith (drawn : Nat) (encoded : String) : Prop :=
  ∃ bytes, provider.fill drawn = .ok bytes ∧ (encoded = Base64.encode bytes.val ∨
    ∃ rest, encoded = disclosureText serde (Base64.encode bytes.val) rest ∧
      ∀ value ∈ rest, serde.Reads 126 value)

/-- A digest of a text made with one of the salts drawn between two points. -/
def Born (first last : Nat) (digest : String) : Prop :=
  ∃ drawn encoded, first ≤ drawn ∧ drawn < last ∧ MadeWith serde provider drawn encoded ∧
    digestOf provider .sha256 encoded = .ok digest

variable {serde provider}

theorem Born.mono {first last least most : Nat} {digest : String}
    (born : Born serde provider first last digest) (below : least ≤ first) (above : last ≤ most) :
    Born serde provider least most digest := by
  obtain ⟨drawn, encoded, from_first, to_last, made⟩ := born
  exact ⟨drawn, encoded, by omega, by omega, made⟩

theorem length_le_encodeChars (bytes : List UInt8) :
    bytes.length ≤ (Base64.encodeChars bytes).length := by
  fun_induction Base64.encodeChars bytes with
  | case1 => simp
  | case2 => simp
  | case3 => simp
  | case4 one two three rest ih =>
    simp only [List.length_cons]
    omega

theorem length_le_utf8 (text : String) : text.toList.length ≤ (Text.utf8 text).length := by
  rw [Text.utf8_eq, List.length_flatMap]
  have each : ∀ characters : List Char,
      characters.length ≤ (characters.map fun one => (String.utf8EncodeChar one).length).sum := by
    intro characters
    induction characters with
    | nil => simp
    | cons character rest ih =>
      have some_byte := Char.utf8Size_pos character
      rw [← String.length_utf8EncodeChar] at some_byte
      rw [List.map_cons, List.sum_cons, List.length_cons]
      omega
  exact each _

/-- The text of a disclosure is longer than the bytes of a salt. -/
theorem disclosureText_ne_salt (bytes other : { drawn : Bytes // drawn.length = 16 })
    (rest : List Json) :
    disclosureText serde (Base64.encode bytes.val) rest ≠ Base64.encode other.val := by
  intro same
  have inside := congrArg List.length (Base64.encode_injective same)
  have least := length_le_utf8 ((Json.array (.string (Base64.encode bytes.val) :: rest)).write
    serde.float)
  obtain ⟨more, starts⟩ := Json.intercalate_starts (Json.writeText (Base64.encode bytes.val))
    (Json.writeItems serde.float rest)
  rw [Json.write_array, Json.writeItems, Json.write, starts, Json.writeText,
    String.toList_ofList] at least
  simp only [List.length_cons, List.length_append] at least
  have escaped := Json.length_le_escaped (Base64.encode bytes.val).toList
  have salted := length_le_encodeChars bytes.val
  rw [Base64.encode, String.toList_ofList] at escaped least
  rw [bytes.property] at salted
  rw [other.property, Base64.encode] at inside
  omega

/-- A text tells the salt it was made with. -/
theorem MadeWith.unique (ideal : Ideal provider) {one other : Nat} {encoded : String}
    (first : MadeWith serde provider one encoded) (second : MadeWith serde provider other encoded) :
    one = other := by
  obtain ⟨bytes, drawn, made⟩ := first
  obtain ⟨again, drawn_again, made_again⟩ := second
  have same : bytes.val = again.val := by
    rcases made with rfl | ⟨rest, rfl, each⟩
    · rcases made_again with same | ⟨rest, same, -⟩
      · exact Base64.encode_injective same
      · exact absurd same.symm (disclosureText_ne_salt again bytes rest)
    · rcases made_again with same | ⟨more, same, each_more⟩
      · exact absurd same (disclosureText_ne_salt bytes again rest)
      · have salted : ∀ (salt : String) {values : List Json},
            (∀ value ∈ values, serde.Reads 126 value) →
              serde.Reads 127 (.array (.string salt :: values)) := fun salt values each =>
          .array (List.forall_mem_cons.mpr ⟨.string salt, each⟩)
        have texts := Base64.encode_injective same
        have reads := (salted (Base64.encode bytes.val) each).back
        rw [texts, (salted (Base64.encode again.val) each_more).back] at reads
        have salts := (List.cons.inj (Json.array.inj (Option.some.inj reads))).1
        exact (Base64.encode_injective (Json.string.inj salts)).symm
  exact ideal.distinct drawn (by rw [Subtype.ext same]; exact drawn_again)

/-- A digest is born once. -/
theorem Born.apart (ideal : Ideal provider) {first last later latest : Nat} {digest : String}
    (born : Born serde provider first last digest) (order : last ≤ later) :
    ¬Born serde provider later latest digest := by
  intro again
  obtain ⟨one, encoded, -, below, made, digested⟩ := born
  obtain ⟨other, text, above, -, made_again, digested_again⟩ := again
  rw [← ideal.same_text digested digested_again] at made_again
  have same := made.unique ideal made_again
  omega

theorem drawDecoys_le {decoys drawn after : Nat} {texts : List Json}
    (ran : drawDecoys provider decoys drawn = .ok (texts, after)) : drawn ≤ after := by
  induction decoys generalizing drawn texts with
  | zero =>
    cases ran
    exact le_rfl
  | succ decoys ih =>
    obtain ⟨⟨text, next⟩, salted, ran⟩ := bind_eq_ok.mp ran
    obtain ⟨digest, -, ran⟩ := bind_eq_ok.mp ran
    obtain ⟨⟨more, last⟩, then_more, ended⟩ := bind_eq_ok.mp ran
    cases ended
    obtain ⟨rfl, -⟩ := salt_eq_ok salted
    have rest := ih then_more
    omega

/-- The steps of sealing an object. -/
theorem sealDigests_object {decoys drawn after : Nat} {members : List (String × Json)}
    {sealed : Json}
    (ran : sealDigests provider decoys (.object members) drawn = .ok (sealed, after)) :
    ∃ shown middle, sealMembers provider decoys members drawn = .ok (shown, middle) ∧
      ((∃ digests more, SortedMap.lookup "_sd" shown = some (.array digests) ∧
          drawDecoys provider decoys middle = .ok (more, after) ∧
          sealed = .object (SortedMap.place "_sd" (.array ((digests ++ more).insertionSort
            fun left right => digestLe left right)) shown)) ∨
        (∀ digests, SortedMap.lookup "_sd" shown ≠ some (.array digests)) ∧ after = middle ∧
          sealed = .object shown) := by
  rw [sealDigests] at ran
  obtain ⟨⟨shown, middle⟩, members_sealed, ran⟩ := bind_eq_ok.mp ran
  refine ⟨shown, middle, members_sealed, ?_⟩
  dsimp only at ran
  split at ran
  · next digests found =>
    obtain ⟨⟨more, last⟩, drew, ended⟩ := bind_eq_ok.mp ran
    cases ended
    exact Or.inl ⟨digests, more, found, drew, rfl⟩
  · next none_there =>
    cases ran
    exact Or.inr ⟨none_there, rfl, rfl⟩

theorem sealDigests_le {decoys drawn after : Nat} {value sealed : Json}
    (ran : sealDigests provider decoys value drawn = .ok (sealed, after)) : drawn ≤ after := by
  induction value using Json.inductionOn generalizing drawn after sealed with
  | array items each =>
    obtain ⟨⟨shown, last⟩, items_sealed, ended⟩ := bind_eq_ok.mp ran
    cases ended
    clear ran
    induction items generalizing drawn shown with
    | nil =>
      cases items_sealed
      exact le_rfl
    | cons item rest ih =>
      obtain ⟨here, later⟩ := List.forall_mem_cons.mp each
      obtain ⟨⟨first, next⟩, item_sealed, ran⟩ := bind_eq_ok.mp items_sealed
      obtain ⟨⟨others, last⟩, rest_sealed, ended⟩ := bind_eq_ok.mp ran
      cases ended
      exact (here item_sealed).trans (ih later others rest_sealed)
  | object members each =>
    obtain ⟨shown, middle, members_sealed, ends⟩ := sealDigests_object ran
    have onward : drawn ≤ middle := by
      clear ran ends
      induction members generalizing drawn shown with
      | nil =>
        cases members_sealed
        exact le_rfl
      | cons member rest ih =>
        obtain ⟨here, later⟩ := List.forall_mem_cons.mp each
        obtain ⟨name, value⟩ := member
        obtain ⟨⟨first, next⟩, value_sealed, ran⟩ := bind_eq_ok.mp members_sealed
        obtain ⟨⟨others, last⟩, rest_sealed, ended⟩ := bind_eq_ok.mp ran
        cases ended
        exact (here value_sealed).trans (ih later others rest_sealed)
    rcases ends with ⟨digests, more, -, drew, -⟩ | ⟨-, rfl, -⟩
    · exact onward.trans (drawDecoys_le drew)
    · exact onward
  | _ =>
    cases ran
    exact le_rfl

theorem sealItems_same {decoys drawn : Nat} {items : List Json}
    (same : ∀ item ∈ items, sealDigests provider decoys item drawn = .ok (item, drawn)) :
    sealItems provider decoys items drawn = .ok (items, drawn) := by
  induction items with
  | nil => rfl
  | cons item rest ih =>
    obtain ⟨here, later⟩ := List.forall_mem_cons.mp same
    rw [sealItems, here]
    simp only [bind, Except.bind, pure, Except.pure, ih later]

theorem lookup_of_clean {members : List (String × Json)}
    (names : ∀ member ∈ members, member.1 ∉ RESERVED_NAMES) {name : String}
    (reserved : name ∈ RESERVED_NAMES) : SortedMap.lookup name members = none := by
  by_contra there
  obtain ⟨value, found⟩ := Option.ne_none_iff_exists'.mp there
  exact names _ (SortedMap.mem_of_lookup found) reserved

/-- A value without the names of the bookkeeping has nothing to seal. -/
theorem sealDigests_clean {value : Json} (clean : Clean value) (decoys drawn : Nat) :
    sealDigests provider decoys value drawn = .ok (value, drawn) := by
  induction value using Json.inductionOn generalizing drawn with
  | array items ih =>
    cases clean with | array each => ?_
    rw [sealDigests, sealItems_same fun item inside => ih item inside (each item inside) drawn]
    rfl
  | object members ih =>
    cases clean with | object names each => ?_
    have same : sealMembers provider decoys members drawn = .ok (members, drawn) := by
      clear names
      induction members with
      | nil => rfl
      | cons member rest again =>
        obtain ⟨here, later⟩ := List.forall_mem_cons.mp ih
        obtain ⟨clean_here, cleans⟩ := List.forall_mem_cons.mp each
        obtain ⟨name, value⟩ := member
        rw [sealMembers, here clean_here drawn]
        simp only [bind, Except.bind, pure, Except.pure, again later cleans]
    rw [sealDigests, same]
    simp [bind, Except.bind, lookup_of_clean names (by decide : "_sd" ∈ RESERVED_NAMES), pure,
      Except.pure]
  | _ => rfl

theorem sorted_texts (texts : List String) : ∃ own : List String, own.Perm texts ∧
    ((texts.map Json.string).insertionSort fun left right => digestLe left right) =
      own.map .string := by
  have perm := List.perm_insertionSort (fun left right => (digestLe left right : Prop))
    (texts.map Json.string)
  have same : ∀ list : List Json, (∀ item ∈ list, ∃ text, item = .string text) →
      (list.filterMap Json.asStr).map .string = list := by
    intro list all
    induction list with
    | nil => rfl
    | cons item rest ih =>
      obtain ⟨⟨text, rfl⟩, later⟩ := List.forall_mem_cons.mp all
      rw [List.filterMap_cons_some (show Json.asStr (.string text) = some text from rfl),
        List.map_cons, ih later]
  refine ⟨(((texts.map Json.string).insertionSort fun left right =>
    digestLe left right).filterMap Json.asStr), ?_, ?_⟩
  · refine (perm.filterMap Json.asStr).trans ?_
    rw [List.filterMap_map]
    have whole : (Json.asStr ∘ Json.string) = some := rfl
    rw [whole, List.filterMap_some]
  · refine (same _ fun item inside => ?_).symm
    obtain ⟨text, -, rfl⟩ := List.mem_map.mp (perm.mem_iff.mp inside)
    exact ⟨text, rfl⟩

/-- Decoys are texts, each of a salt of its own. -/
theorem drawDecoys_eq_ok (ideal : Ideal provider) {decoys drawn after : Nat} {more : List Json}
    (ran : drawDecoys provider decoys drawn = .ok (more, after)) :
    ∃ texts : List String, more = texts.map .string ∧ texts.Nodup ∧
      ∀ digest ∈ texts, Decoy provider digest ∧ Born serde provider drawn after digest := by
  induction decoys generalizing drawn more with
  | zero =>
    cases ran
    exact ⟨[], rfl, .nil, by simp⟩
  | succ decoys ih =>
    obtain ⟨⟨text, next⟩, salted, ran⟩ := bind_eq_ok.mp ran
    obtain ⟨digest, digested, ran⟩ := bind_eq_ok.mp ran
    obtain ⟨⟨others, last⟩, then_more, ended⟩ := bind_eq_ok.mp ran
    cases ended
    obtain ⟨rfl, bytes, filled, rfl⟩ := salt_eq_ok salted
    obtain ⟨texts, rfl, once, each⟩ := ih then_more
    have made : digestOf provider .sha256 (Base64.encode bytes.val) = .ok digest := by
      cases hashed : digestOf provider .sha256 (Base64.encode bytes.val) with
      | error refused =>
        rw [hashed] at digested
        cases digested
      | ok text =>
        rw [hashed] at digested
        exact congrArg _ (Except.ok.inj digested)
    have below := drawDecoys_le then_more
    have born : Born serde provider drawn (drawn + 1) digest :=
      ⟨drawn, _, le_rfl, by omega, ⟨bytes, filled, Or.inl rfl⟩, made⟩
    refine ⟨digest :: texts, rfl, List.nodup_cons.mpr ⟨fun inside => ?_, once⟩,
      List.forall_mem_cons.mpr ⟨⟨⟨drawn, bytes, filled, made⟩, born.mono le_rfl below⟩, ?_⟩⟩
    · exact born.apart ideal le_rfl (each digest inside).2
    · intro other inside
      exact ⟨(each other inside).1, (each other inside).2.mono (by omega) le_rfl⟩

theorem held_place {finite : Rat → Prop} {members : List (String × Json)} {name : String}
    {value : Json} (held : (Json.object members).Held finite) (new : value.Held finite) :
    (Json.object (SortedMap.place name value members)).Held finite := by
  cases held with | object sorted each => ?_
  have ordered := SortedMap.place_sorted name value members sorted
  refine .object ordered fun entry inside => ?_
  have found := SortedMap.lookup_of_mem ordered inside
  rw [SortedMap.lookup_place _ _ _ _ sorted] at found
  split at found
  · cases found
    exact new
  · exact each _ (SortedMap.mem_of_lookup found)

theorem held_without {finite : Rat → Prop} {members : List (String × Json)} (name : String)
    (held : (Json.object members).Held finite) :
    (Json.object (SortedMap.without name members)).Held finite := by
  cases held with | object sorted each => ?_
  exact .object (SortedMap.without_sorted name sorted) fun entry inside =>
    each entry (List.mem_filter.mp inside).1

theorem lookup_none_iff {members : List (String × Json)} {name : String} :
    SortedMap.lookup name members = none ↔ name ∉ members.map Prod.fst := by
  induction members with
  | nil => simp [SortedMap.lookup]
  | cons member rest ih =>
    rw [SortedMap.lookup, List.map_cons, List.mem_cons]
    by_cases same : member.1 = name
    · simp [same]
    · simp [same, Ne.symm same, ih]

/-- The members keep their names, and each draws its salts before or after
those of another. -/
theorem sealMembers_spans {decoys drawn after : Nat} {members shown : List (String × Json)}
    (ran : sealMembers provider decoys members drawn = .ok (shown, after))
    (sorted : Sorted members) :
    shown.map Prod.fst = members.map Prod.fst ∧ drawn ≤ after ∧ ∃ starts ends : String → Nat,
      (∀ member ∈ members, ∃ value, SortedMap.lookup member.1 shown = some value ∧
        sealDigests provider decoys member.2 (starts member.1) = .ok (value, ends member.1) ∧
        drawn ≤ starts member.1 ∧ ends member.1 ≤ after) ∧
      ∀ member ∈ members, ∀ other ∈ members, member.1 ≠ other.1 →
        ends member.1 ≤ starts other.1 ∨ ends other.1 ≤ starts member.1 := by
  induction members generalizing drawn shown with
  | nil =>
    cases ran
    exact ⟨rfl, le_rfl, fun _ => 0, fun _ => 0, by simp, by simp⟩
  | cons member rest ih =>
    obtain ⟨above, later⟩ := List.pairwise_cons.mp sorted
    obtain ⟨name, value⟩ := member
    obtain ⟨⟨sealed, next⟩, value_sealed, ran⟩ := bind_eq_ok.mp ran
    obtain ⟨⟨others, last⟩, rest_sealed, ended⟩ := bind_eq_ok.mp ran
    cases ended
    have here := sealDigests_le value_sealed
    obtain ⟨names, onward, starts, ends, each, apart⟩ := ih rest_sealed later
    have different : ∀ member ∈ rest, member.1 ≠ name := fun member inside =>
      ne_of_gt (above member inside)
    refine ⟨by simp [names], here.trans onward, fun asked => if asked = name then drawn else starts asked,
      fun asked => if asked = name then next else ends asked, ?_, ?_⟩
    · refine List.forall_mem_cons.mpr ⟨⟨sealed, ?_⟩, fun member inside => ?_⟩
      · simp only [SortedMap.lookup, if_true]
        exact ⟨trivial, value_sealed, le_rfl, onward⟩
      · obtain ⟨value, found, ran, least, most⟩ := each member inside
        have other := different member inside
        refine ⟨value, ?_⟩
        rw [SortedMap.lookup, if_neg (Ne.symm other)]
        simp only [if_neg other]
        exact ⟨found, ran, here.trans least, most⟩
    · intro one inside two among distinct
      rcases List.mem_cons.mp inside with rfl | inside
      · rcases List.mem_cons.mp among with rfl | among
        · exact absurd rfl distinct
        · obtain ⟨-, -, -, least, -⟩ := each two among
          left
          simpa only [if_true, if_neg (different two among)] using least
      · rcases List.mem_cons.mp among with rfl | among
        · obtain ⟨-, -, -, least, -⟩ := each one inside
          right
          simpa only [if_true, if_neg (different one inside)] using least
        · simpa only [if_neg (different one inside), if_neg (different two among)] using
            apart one inside two among distinct

theorem Veiled.mono {marks : Marks} {value shown : Json} {region more : String → Prop}
    (veiled : Veiled serde provider marks value shown region)
    (wider : ∀ digest, region digest → more digest) :
    Veiled serde provider marks value shown more := by
  cases veiled with
  | null => exact .null
  | bool value => exact .bool value
  | number value => exact .number value
  | string text => exact .string text
  | array clean hidden apart =>
    exact .array clean (fun index item encoded found marked =>
      (hidden index item encoded found marked).imp_right (wider _)) apart
  | object each laid =>
    exact .object each { laid with
      owned := fun digest inside => wider digest (laid.owned digest inside)
      inside := fun member among digest inside => wider digest (laid.inside member among digest inside) }

/-- Digests of new salts stand apart from those there were, and from each other
where each member draws before or after the others and the object after all. -/
theorem Apart.extend (ideal : Ideal provider) {members : List (String × Json)}
    {own more : List String} {inner : String → String → Prop} {region : String → Prop}
    (stood : Apart members own inner region) (drawn last after : Nat) (starts ends : String → Nat)
    (old : ∀ digest, region digest → Born serde provider 0 drawn digest) (once : more.Nodup)
    (new : ∀ digest ∈ more, digest ∈ own ∨ Born serde provider last after digest)
    (spans : ∀ member ∈ members, drawn ≤ starts member.1 ∧ ends member.1 ≤ last)
    (bounds : drawn ≤ last ∧ last ≤ after)
    (order : ∀ member ∈ members, ∀ other ∈ members, member.1 ≠ other.1 →
      ends member.1 ≤ starts other.1 ∨ ends other.1 ≤ starts member.1) :
    Apart members more
      (fun name digest => inner name digest ∨ Born serde provider (starts name) (ends name) digest)
      fun digest => region digest ∨ Born serde provider drawn after digest where
  once := once
  owned := by
    intro digest inside
    exact (new digest inside).imp (stood.owned digest) fun born => born.mono bounds.1 le_rfl
  inside := by
    intro member among digest there
    obtain ⟨least, most⟩ := spans member among
    exact there.imp (stood.inside member among digest) fun born =>
      born.mono least (most.trans bounds.2)
  own_apart := by
    intro digest inside member among there
    obtain ⟨least, most⟩ := spans member among
    rcases new digest inside with before | born
    · rcases there with within | later
      · exact stood.own_apart digest before member among within
      · exact (old digest (stood.owned digest before)).apart ideal least later
    · rcases there with within | earlier
      · exact (old digest (stood.inside member among digest within)).apart ideal bounds.1 born
      · exact earlier.apart ideal most born
  apart := by
    intro member among other inside different digest here there
    obtain ⟨least, -⟩ := spans member among
    obtain ⟨least_other, -⟩ := spans other inside
    rcases here with within | born
    · have older := old digest (stood.inside member among digest within)
      rcases there with within_other | later
      · exact stood.apart member among other inside different digest within within_other
      · exact older.apart ideal least_other later
    · rcases there with within | born_other
      · exact (old digest (stood.inside other inside digest within)).apart ideal least born
      · rcases order member among other inside different with earlier | later
        · exact born.apart ideal earlier born_other
        · exact born_other.apart ideal later born

theorem sealDigests_slot (marks : Marks) (index decoys drawn : Nat) {item : Json}
    (clean : Clean item) :
    sealDigests provider decoys (slot provider marks index item) drawn =
      .ok (slot provider marks index item, drawn) := by
  unfold slot
  split
  · exact sealDigests_clean clean decoys drawn
  · rfl

theorem sealDigests_veilItems (marks : Marks) (index decoys drawn : Nat) {items : List Json}
    (clean : ∀ item ∈ items, Clean item) :
    sealDigests provider decoys (.array (veilItems provider marks index items)) drawn =
      .ok (.array (veilItems provider marks index items), drawn) := by
  have each : ∀ item ∈ veilItems provider marks index items,
      sealDigests provider decoys item drawn = .ok (item, drawn) := by
    induction items generalizing index with
    | nil => simp [veilItems]
    | cons item rest ih =>
      obtain ⟨here, later⟩ := List.forall_mem_cons.mp clean
      exact List.forall_mem_cons.mpr
        ⟨sealDigests_slot marks index decoys drawn here, ih (index + 1) later⟩
  rw [sealDigests, sealItems_same each]
  rfl

/-- What is veiled is veiled when it is sealed, the new digests of salts drawn
on the way. -/
theorem Veiled.sealed (ideal : Ideal provider) {marks : Marks} {value shown : Json}
    {region : String → Prop} (veiled : Veiled serde provider marks value shown region)
    {decoys drawn after : Nat} {sealed : Json}
    (old : ∀ digest, region digest → Born serde provider 0 drawn digest)
    (ran : sealDigests provider decoys shown drawn = .ok (sealed, after)) :
    Veiled serde provider marks value sealed
      fun digest => region digest ∨ Born serde provider drawn after digest := by
  induction veiled generalizing drawn after sealed with
  | null | bool | number | string =>
    cases ran
    constructor
  | array clean hidden apart =>
    rw [sealDigests_veilItems _ _ _ _ clean] at ran
    cases ran
    exact (Veiled.array clean hidden apart).mono fun _ => Or.inl
  | object each laid ih =>
    next marks region members shown own part inner =>
    obtain ⟨entries, middle, members_sealed, ends_so⟩ := sealDigests_object ran
    obtain ⟨names, onward, starts, ends, spans, order⟩ :=
      sealMembers_spans members_sealed laid.sorted
    have sorted : Sorted entries := by
      have keys := List.pairwise_map.mpr laid.sorted
      rw [← names] at keys
      exact List.pairwise_map.mp keys
    have absent_both : ∀ name, SortedMap.lookup name shown = none →
        SortedMap.lookup name entries = none := by
      intro name absent
      rw [lookup_none_iff, names, ← lookup_none_iff]
      exact absent
    have own_still : ∀ digests, SortedMap.lookup "_sd" shown = some digests →
        Clean digests → SortedMap.lookup "_sd" entries = some digests := by
      intro digests found clean
      obtain ⟨value, there, value_sealed, -⟩ := spans _ (SortedMap.mem_of_lookup found)
      rw [sealDigests_clean clean] at value_sealed
      rw [(Prod.mk.inj (Except.ok.inj value_sealed)).1]
      exact there
    have texts_clean : Clean (.array (own.map .string)) := .array fun item inside => by
      obtain ⟨text, -, rfl⟩ := List.mem_map.mp inside
      exact .string text
    let marked : String → Bool := fun name => (marks (.property [name])).isSome
    let changed : String → Json := fun name =>
      if marked name then part name else (SortedMap.lookup name entries).getD .null
    have plain_spans : ∀ member ∈ members, marked member.1 = false →
        SortedMap.lookup member.1 entries = some (changed member.1) ∧
        sealDigests provider decoys (part member.1) (starts member.1) =
          .ok (changed member.1, ends member.1) ∧
        drawn ≤ starts member.1 ∧ ends member.1 ≤ middle := by
      intro member among plain
      have unmarked : marks (.property [member.1]) = none := by simpa [marked] using plain
      obtain ⟨value, there, value_sealed, least, most⟩ :=
        spans _ (SortedMap.mem_of_lookup (laid.plain member among unmarked))
      have same : changed member.1 = value := by simp [changed, plain, there]
      rw [same]
      exact ⟨there, value_sealed, least, most⟩
    let first : String → Nat := fun name => if marked name then drawn else starts name
    let last : String → Nat := fun name => if marked name then drawn else ends name
    have members_span : ∀ member ∈ members, drawn ≤ first member.1 ∧ last member.1 ≤ middle := by
      intro member among
      cases plain : marked member.1 with
      | true => simpa [first, last, plain] using onward
      | false =>
        obtain ⟨-, -, least, most⟩ := plain_spans member among plain
        simpa [first, last, plain] using ⟨least, most⟩
    have members_order : ∀ member ∈ members, ∀ other ∈ members, member.1 ≠ other.1 →
        last member.1 ≤ first other.1 ∨ last other.1 ≤ first member.1 := by
      intro member among other inside different
      cases plain : marked member.1 with
      | true =>
        left
        simpa [last, plain] using (members_span other inside).1
      | false =>
        cases plain_other : marked other.1 with
        | true =>
          right
          simpa [last, plain_other] using (members_span member among).1
        | false =>
          have unmarked : marks (.property [member.1]) = none := by simpa [marked] using plain
          have unmarked_other : marks (.property [other.1]) = none := by
            simpa [marked] using plain_other
          simpa [first, last, plain, plain_other] using
            order _ (SortedMap.mem_of_lookup (laid.plain member among unmarked)) _
              (SortedMap.mem_of_lookup (laid.plain other inside unmarked_other)) different
    have below : middle ≤ after := by
      rcases ends_so with ⟨digests, more, -, drew, -⟩ | ⟨-, rfl, -⟩
      · exact drawDecoys_le drew
      · exact le_rfl
    have resealed : ∀ (more : List String) (final : List (String × Json)), Sorted final →
        (∀ name, name ≠ "_sd" → SortedMap.lookup name final = SortedMap.lookup name entries) →
        (SortedMap.lookup "_sd" final = none ∧ more = [] ∨
          SortedMap.lookup "_sd" final = some (.array (more.map .string)) ∧
            ∃ member ∈ members, (marks (.property [member.1])).isSome) →
        (∀ digest ∈ own, digest ∈ more) → more.Nodup →
        (∀ digest ∈ more, digest ∈ own ∨
          Decoy provider digest ∧ Born serde provider middle after digest) →
        Veiled serde provider marks (.object members) (.object final)
          fun digest => region digest ∨ Born serde provider drawn after digest := by
      intro more final final_sorted same digests kept once new
      refine @Veiled.object serde provider marks _ members final more changed
        (fun name digest => inner name digest ∨ Born serde provider (first name) (last name) digest)
        ?_ ?_
      · intro member among
        cases plain : marked member.1 with
        | true =>
          have here := each member among
          simp only [changed, plain, if_true]
          exact here.mono fun _ => Or.inl
        | false =>
          obtain ⟨-, value_sealed, least, -⟩ := plain_spans member among plain
          have here := ih member among (fun digest inside =>
            (old digest (laid.inside member among digest inside)).mono le_rfl least) value_sealed
          simpa [first, last, plain] using here
      · exact
          { Apart.extend ideal laid.toApart drawn middle after first last old once
              (fun digest inside => (new digest inside).imp id And.right) members_span
              ⟨onward, below⟩ members_order with
            sorted := final_sorted
            names := laid.names
            plain := by
              intro member among unmarked
              have other : member.1 ≠ "_sd" := fun equal =>
                laid.names member among (by rw [equal]; decide)
              rw [same member.1 other]
              exact (plain_spans member among (by simp [marked, unmarked])).1
            hidden := by
              intro member among encoded marked_so
              have other : member.1 ≠ "_sd" := fun equal =>
                laid.names member among (by rw [equal]; decide)
              obtain ⟨gone, discloses⟩ := laid.hidden member among encoded marked_so
              rw [same member.1 other]
              refine ⟨absent_both member.1 gone, ?_⟩
              simpa [changed, marked, marked_so] using discloses
            absent := by
              intro name other missing
              rw [same name other]
              exact absent_both name (laid.absent name other missing)
            digests
            linked := fun member among encoded marked_so =>
              kept _ (laid.linked member among encoded marked_so)
            made := by
              intro digest inside
              rcases new digest inside with before | ⟨decoy, -⟩
              · exact laid.made digest before
              · exact Or.inl decoy }
    rcases ends_so with ⟨digests, more, found, drew, rfl⟩ | ⟨none_there, rfl, rfl⟩
    · rcases laid.digests with ⟨absent, -⟩ | ⟨there, some_marked⟩
      · rw [absent_both "_sd" absent] at found
        cases found
      · rw [own_still _ there texts_clean] at found
        cases found
        obtain ⟨texts, rfl, once, each_new⟩ := drawDecoys_eq_ok ideal drew
        obtain ⟨list, perm, same⟩ := sorted_texts (own ++ texts)
        rw [← List.map_append, same]
        have disjoint : ∀ digest ∈ own, ∀ other ∈ texts, digest ≠ other := by
          intro digest inside other among equal
          rw [equal] at inside
          exact (old other (laid.owned other inside)).apart ideal onward (each_new other among).2
        refine resealed list _ (SortedMap.place_sorted _ _ _ sorted) ?_ ?_ ?_ ?_ ?_
        · intro name other
          rw [SortedMap.lookup_place _ _ _ _ sorted, if_neg other]
        · rw [SortedMap.lookup_place _ _ _ _ sorted, if_pos rfl]
          exact Or.inr ⟨rfl, some_marked⟩
        · intro digest inside
          exact perm.mem_iff.mpr (List.mem_append_left _ inside)
        · exact perm.nodup_iff.mpr (List.nodup_append.mpr ⟨laid.once, once, disjoint⟩)
        · intro digest inside
          exact (List.mem_append.mp (perm.mem_iff.mp inside)).imp id (each_new digest)
    · rcases laid.digests with ⟨absent, rfl⟩ | ⟨there, -⟩
      · exact resealed [] entries sorted (fun _ _ => rfl) (Or.inl ⟨absent_both _ absent, rfl⟩)
          (by simp) .nil (by simp)
      · exact absurd (own_still _ there texts_clean) (none_there _)

end Saffui.SdJwt
