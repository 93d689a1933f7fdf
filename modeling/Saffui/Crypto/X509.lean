import Mathlib.Data.List.Forall2
import Saffui.Foundation.Escapes
import Saffui.Text

/-!
# The subject of a certificate

`crypto/src/x509.rs`: the text a certificate's subject is registered and
compared as. What OpenSSL reads of a certificate is taken as read: the type of
each entry, as its dotted OID, and the bytes of its value. The short names are
those of a table that knows some of the types.
-/

namespace Saffui.Crypto.X509

open Foundation

structure X509NameEntry where
  object : String
  data : List UInt8
  deriving DecidableEq

structure Certificate where
  subjectName : List X509NameEntry
  deriving DecidableEq

/-- The name of the number OpenSSL gives to every type it does not know. -/
def undefName : String := "UNDEF"

/-- The types OpenSSL knows, with their short names. -/
structure ObjectTable where
  find : String → Option String
  apart : ∀ {one two name}, find one = some name → find two = some name → one = two
  plain : ∀ {object name}, find object = some name → '=' ∉ name.toList
  defined : ∀ {object}, find object ≠ some undefName

/-- The short name of a type's number. The number of an unknown type has one too. -/
def ObjectTable.shortName (table : ObjectTable) (object : String) : Except Unit String :=
  .ok ((table.find object).getD undefName)

/-- The characters that would read as structure. -/
def isStructure (held : Char) : Bool := ['"', '+', ',', ';', '<', '>', '\\', '='].contains held

/-- Whether a character of a value is escaped, at its place and with the last one's. -/
def isEscaped (last : Nat) (held : Char) (place : Nat) : Bool :=
  let edge := (place = 0 && (held = ' ' || held = '#')) || (place = last && held = ' ')
  edge || isStructure held

def dnEscaped (value : String) : String :=
  let last := value.toList.length - 1
  String.ofList (value.toList.zipIdx.flatMap fun (held, place) =>
    if isEscaped last held place then ['\\', held] else [held])

/-- The short name of an entry's type, or its dotted OID where there is none. -/
def X509NameEntry.name (table : ObjectTable) (entry : X509NameEntry) : String :=
  match table.shortName entry.object with
  | .ok name => name
  | .error _ => entry.object

def writeEntry (name : String) (data : List UInt8) : Option String := do
  let value ← Text.readUtf8 data
  if value.toList.contains '\x00' then none
  else return name ++ "=" ++ dnEscaped value

def X509NameEntry.write (table : ObjectTable) (entry : X509NameEntry) : Option String :=
  writeEntry (entry.name table) entry.data

/-- What `subject_dn` renders of a certificate OpenSSL has read. -/
def Certificate.writeSubject (table : ObjectTable) (certificate : Certificate) : Option String := do
  let entries ← certificate.subjectName.mapM (X509NameEntry.write table)
  return ",".intercalate entries.reverse

def subjectDn (table : ObjectTable) (fromDer : List UInt8 → Option Certificate) (der : List UInt8) :
    Option String := do
  let certificate ← fromDer der
  certificate.writeSubject table

/-- What an entry shows: the name of its type and the bytes of its value. -/
def X509NameEntry.shown (table : ObjectTable) (entry : X509NameEntry) : String × List UInt8 :=
  (entry.name table, entry.data)

/-- A value that is a text without a NUL. -/
def X509NameEntry.Fit (entry : X509NameEntry) : Prop :=
  ∃ value : String, entry.data = Text.utf8 value ∧ '\x00' ∉ value.toList

/-- The same value, of the same type or of two types that are both unknown. -/
def X509NameEntry.Alike (table : ObjectTable) (left right : X509NameEntry) : Prop :=
  left.data = right.data ∧ (left.object = right.object ∨
    (table.find left.object = none ∧ table.find right.object = none))

/-- Two subjects that differ in nothing but which unknown types they use. -/
def Disguised (table : ObjectTable) (left right : Certificate) : Prop :=
  left ≠ right ∧
    List.Forall₂ (X509NameEntry.Alike table) left.subjectName right.subjectName

/-- The characters of a value, with those that are escaped. -/
def flagged (value : String) : List (Bool × Char) :=
  value.toList.zipIdx.map fun (held, place) =>
    (isEscaped (value.toList.length - 1) held place, held)

theorem dnEscaped_eq (value : String) :
    (dnEscaped value).toList = Escapes.spell '\\' (flagged value) := by
  rw [dnEscaped, String.toList_ofList, Escapes.spell, flagged, List.flatMap_map]

theorem flagged_guarded (value : String) : Escapes.Guarded '\\' ',' (flagged value) := by
  intro held inside special
  obtain ⟨⟨character, place⟩, -, rfl⟩ := List.mem_map.mp inside
  have structural : isStructure character = true := by
    rcases special with mark | stop
    · rw [show character = '\\' from mark]
      decide
    · rw [show character = ',' from stop]
      decide
  simp [isEscaped, structural]

theorem flagged_value (value : String) : (flagged value).map Prod.snd = value.toList := by
  rw [flagged, List.map_map]
  exact List.zipIdx_map_fst 0 value.toList

/-- What a name and a value are written as. -/
def asEntry (name value : String) : Escapes.Entry Char := ⟨name.toList, flagged value⟩

/-- A name and a value, with the bytes of the value. -/
def tell (told : List Char × List Char) : String × List UInt8 :=
  (String.ofList told.1, Text.utf8 (String.ofList told.2))

theorem name_plain (table : ObjectTable) (entry : X509NameEntry) :
    '=' ∉ (entry.name table).toList := by
  rw [X509NameEntry.name, ObjectTable.shortName]
  cases known : table.find entry.object with
  | none =>
    have named : '=' ∉ undefName.toList := by decide
    exact named
  | some name => exact table.plain known

/-- Two types have one name where they are one type or both unknown. -/
theorem name_eq_iff (table : ObjectTable) (left right : X509NameEntry) :
    left.name table = right.name table ↔ left.object = right.object ∨
      (table.find left.object = none ∧ table.find right.object = none) := by
  simp only [X509NameEntry.name, ObjectTable.shortName]
  constructor
  · intro same
    cases one : table.find left.object with
    | none =>
      cases two : table.find right.object with
      | none => exact Or.inr ⟨rfl, rfl⟩
      | some name =>
        rw [one, two] at same
        exact absurd (two.trans (congrArg some same.symm)) table.defined
    | some name =>
      rw [one] at same
      cases two : table.find right.object with
      | none =>
        rw [two] at same
        exact absurd (one.trans (congrArg some same)) table.defined
      | some other =>
        rw [two] at same
        exact Or.inl (table.apart one (two.trans (congrArg some same.symm)))
  · rintro (same | ⟨one, two⟩)
    · rw [same]
    · rw [one, two]

theorem alike_iff (table : ObjectTable) (left right : X509NameEntry) :
    left.Alike table right ↔ left.shown table = right.shown table := by
  rw [X509NameEntry.Alike, X509NameEntry.shown, X509NameEntry.shown, Prod.mk.injEq, name_eq_iff,
    and_comm]

/-- Entries show the same one by one where they are alike. -/
theorem forall_alike_iff (table : ObjectTable) (left right : List X509NameEntry) :
    List.Forall₂ (X509NameEntry.Alike table) left right ↔
      left.map (X509NameEntry.shown table) = right.map (X509NameEntry.shown table) := by
  rw [← congrFun (congrFun List.forall₂_eq_eq_eq _) _, List.forall₂_map_left_iff,
    List.forall₂_map_right_iff]
  constructor
  · exact List.Forall₂.imp fun one two => (alike_iff table one two).mp
  · exact List.Forall₂.imp fun one two => (alike_iff table one two).mpr

theorem write_of_value (table : ObjectTable) {entry : X509NameEntry} {value : String}
    (held : entry.data = Text.utf8 value) (plain : '\x00' ∉ value.toList) :
    entry.write table =
      some (String.ofList ((asEntry (entry.name table) value).write '\\' '=')) := by
  have text : entry.name table ++ "=" ++ dnEscaped value =
      String.ofList ((asEntry (entry.name table) value).write '\\' '=') := by
    apply String.toList_injective
    rw [String.toList_ofList, Escapes.Entry.write]
    simp [dnEscaped_eq, asEntry]
  simp [X509NameEntry.write, writeEntry, held, Text.readUtf8_utf8, plain, text]

theorem tell_asEntry (name value : String) :
    tell (asEntry name value).told = (name, Text.utf8 value) := by
  simp [tell, Escapes.Entry.told, asEntry, flagged_value]

/-- Entries are written in order as escaped ones that tell what they show. -/
theorem mapM_write (table : ObjectTable) {entries : List X509NameEntry}
    (fit : ∀ entry ∈ entries, entry.Fit) :
    ∃ written : List (Escapes.Entry Char), (∀ one ∈ written, one.Fit '\\' ',' '=') ∧
      entries.mapM (X509NameEntry.write table) =
        some (written.map fun one => String.ofList (one.write '\\' '=')) ∧
      written.map (fun one => tell one.told) = entries.map (X509NameEntry.shown table) := by
  induction entries with
  | nil => exact ⟨[], by simp, rfl, rfl⟩
  | cons entry rest ih =>
    obtain ⟨written, fits, same, told⟩ := ih fun one inside => fit one (List.mem_cons_of_mem _ inside)
    obtain ⟨value, data, plain⟩ := fit entry List.mem_cons_self
    refine ⟨asEntry (entry.name table) value :: written, ?_, ?_, ?_⟩
    · intro one inside
      rcases List.mem_cons.mp inside with rfl | later
      · exact ⟨name_plain table entry, flagged_guarded value⟩
      · exact fits one later
    · rw [List.mapM_cons, write_of_value table data plain, same]
      rfl
    · rw [List.map_cons, List.map_cons, told, tell_asEntry, ← data]
      rfl

/-- The entries of a subject, the last one first, with commas between them. -/
theorem writeSubject_eq (table : ObjectTable) {certificate : Certificate}
    (fit : ∀ entry ∈ certificate.subjectName, entry.Fit) :
    ∃ written : List (Escapes.Entry Char), (∀ one ∈ written, one.Fit '\\' ',' '=') ∧
      certificate.writeSubject table =
        some (String.ofList (Escapes.writeEntries '\\' ',' '=' written)) ∧
      (written.map fun one => tell one.told).reverse =
        certificate.subjectName.map (X509NameEntry.shown table) := by
  obtain ⟨written, fits, same, told⟩ := mapM_write table fit
  refine ⟨written.reverse, ?_, ?_, ?_⟩
  · intro one inside
    exact fits one (List.mem_reverse.mp inside)
  · have joined : ",".intercalate (written.map fun one => String.ofList (one.write '\\' '=')).reverse =
        String.ofList (Escapes.writeEntries '\\' ',' '=' written.reverse) := by
      apply String.toList_injective
      have each : String.toList ∘ (fun one => String.ofList (one.write '\\' '=')) =
          Escapes.Entry.write '\\' '=' := funext fun _ => String.toList_ofList
      rw [String.toList_intercalate, ← List.map_reverse, List.map_map, each]
      exact String.toList_ofList.symm
    rw [Certificate.writeSubject, same]
    exact congrArg some joined
  · rw [List.map_reverse, List.reverse_reverse, told]

/-- Subjects are written as one text where they show the same, entry for entry. -/
theorem writeSubject_eq_iff (table : ObjectTable) {left right : Certificate}
    (fitLeft : ∀ entry ∈ left.subjectName, entry.Fit)
    (fitRight : ∀ entry ∈ right.subjectName, entry.Fit) :
    left.writeSubject table = right.writeSubject table ↔
      left.subjectName.map (X509NameEntry.shown table) =
        right.subjectName.map (X509NameEntry.shown table) := by
  obtain ⟨one, fitOne, writtenOne, shownOne⟩ := writeSubject_eq table fitLeft
  obtain ⟨two, fitTwo, writtenTwo, shownTwo⟩ := writeSubject_eq table fitRight
  constructor
  · intro same
    rw [writtenOne, writtenTwo] at same
    have texts := String.ofList_injective (Option.some.inj same)
    have told := Escapes.told_of_writeEntries (by decide) fitOne fitTwo texts
    have mapped := congrArg (List.map tell) told
    rw [List.map_map, List.map_map] at mapped
    rw [← shownOne, ← shownTwo]
    exact congrArg List.reverse mapped
  · intro same
    have whole (certificate : Certificate) :
        certificate.subjectName.mapM (X509NameEntry.write table) =
          (certificate.subjectName.map (X509NameEntry.shown table)).mapM fun shown =>
            writeEntry shown.1 shown.2 := by
      rw [List.mapM_map]
      rfl
    rw [Certificate.writeSubject, Certificate.writeSubject, whole left, whole right, same]

/-- Two certificates whose subjects hold texts without a NUL are given one subject only if their
entries are the same, unless all they differ in is which of the unknown types an entry is of. -/
theorem subject_dn_injective (table : ObjectTable) (fromDer : List UInt8 → Option Certificate)
    {one two : List UInt8} {left right : Certificate}
    (readOne : fromDer one = some left) (readTwo : fromDer two = some right)
    (fitLeft : ∀ entry ∈ left.subjectName, entry.Fit)
    (fitRight : ∀ entry ∈ right.subjectName, entry.Fit) :
    (subjectDn table fromDer one = subjectDn table fromDer two →
        left.subjectName = right.subjectName) ↔ ¬Disguised table left right := by
  have rendered : subjectDn table fromDer one = subjectDn table fromDer two ↔
      left.writeSubject table = right.writeSubject table := by
    rw [subjectDn, subjectDn, readOne, readTwo]
    rfl
  have differ : left ≠ right ↔ left.subjectName ≠ right.subjectName := by
    rw [Ne, Ne, Certificate.mk.injEq]
  rw [rendered, writeSubject_eq_iff table fitLeft fitRight, ← forall_alike_iff, Disguised, differ]
  tauto

/-- The one type of the subjects below that is known. -/
def commonNames : ObjectTable where
  find object := if object = "2.5.4.3" then some "CN" else none
  apart first second := by
    split at first <;> split at second <;> simp_all
  plain found := by
    split at found <;> simp_all
    subst found
    decide
  defined := by
    intro object found
    split at found
    · revert found
      decide
    · cases found

/-- A DER element with a content of less than 256 bytes. -/
def element (tag : UInt8) (content : List UInt8) : List UInt8 :=
  let length := UInt8.ofNat content.length
  tag :: (if content.length < 128 then [length] else [0x81, length]) ++ content

/-- The DER of a certificate of an Ed25519 key, with a subject of one entry. -/
def certificateDer (object value : List UInt8) : List UInt8 :=
  let algorithm := element 0x30 (element 6 [0x2b, 0x65, 0x70])
  let subject :=
    element 0x30 (element 0x31 (element 0x30 (element 6 object ++ element 0x0c value)))
  let time := element 0x17 (Text.utf8 "260101000000Z")
  let key := element 0x30 (algorithm ++ element 3 (List.replicate 33 0))
  let held := element 0x30 (element 2 [1] ++ algorithm ++ element 0x30 [] ++
    element 0x30 (time ++ time) ++ subject ++ key)
  element 0x30 (held ++ algorithm ++ element 3 (List.replicate 65 0))

/-- The certificates below: an OID's bytes, its dotted text, and a value. -/
def certificates : List ((List UInt8 × String) × String) :=
  [(([0x2a, 3, 4, 5], "1.2.3.4.5"), "x"), (([0x2a, 3, 4, 6], "1.2.3.4.6"), "x"),
    (([0x55, 4, 3], "2.5.4.3"), "till\\"), (([0x55, 4, 3], "2.5.4.3"), "till,")]

def readCertificate (der : List UInt8) : Option Certificate :=
  (certificates.map fun (object, value) => (certificateDer object.1 (Text.utf8 value),
    (⟨[⟨object.2, Text.utf8 value⟩]⟩ : Certificate))).lookup der

/-- A type OpenSSL has no name for, under 1.2.3.4. -/
def unknownType (last : UInt8) : List UInt8 := certificateDer [0x2a, 3, 4, last] (Text.utf8 "x")

def commonNameDer (value : String) : List UInt8 := certificateDer [0x55, 4, 3] (Text.utf8 value)

/-- A subject of one entry. -/
def single (object value : String) : Certificate := ⟨[⟨object, Text.utf8 value⟩]⟩

theorem single_fit (object : String) {value : String} (plain : '\x00' ∉ value.toList) :
    ∀ entry ∈ (single object value).subjectName, entry.Fit := by
  intro entry inside
  rw [List.mem_singleton.mp inside]
  exact ⟨value, rfl, plain⟩

set_option maxRecDepth 4000 in
/-- Two types that are not known show under one name, and their subjects are one text. -/
theorem unknown_types_collide :
    ¬∀ (table : ObjectTable) (fromDer : List UInt8 → Option Certificate) (one two : List UInt8)
      (left right : Certificate), fromDer one = some left → fromDer two = some right →
      (∀ entry ∈ left.subjectName, entry.Fit) → (∀ entry ∈ right.subjectName, entry.Fit) →
      subjectDn table fromDer one = subjectDn table fromDer two →
        left.subjectName = right.subjectName := by
  intro claimed
  have readOne : readCertificate (unknownType 5) = some (single "1.2.3.4.5" "x") := by
    decide
  have readTwo : readCertificate (unknownType 6) = some (single "1.2.3.4.6" "x") := by
    decide
  have rendered : subjectDn commonNames readCertificate (unknownType 5) =
      subjectDn commonNames readCertificate (unknownType 6) := by
    rw [subjectDn, subjectDn, readOne, readTwo]
    rfl
  have fit (object : String) := single_fit object (show '\x00' ∉ "x".toList by decide)
  have same := claimed _ _ _ _ _ _ readOne readTwo (fit _) (fit _) rendered
  revert same
  decide

set_option maxRecDepth 4000 in
/-- A name that ends as an escape would is not the one whose comma it would hide. -/
theorem common_names_apart :
    (subjectDn commonNames readCertificate (commonNameDer "till\\") =
        subjectDn commonNames readCertificate (commonNameDer "till,") →
      (single "2.5.4.3" "till\\").subjectName = (single "2.5.4.3" "till,").subjectName) ↔
    ¬Disguised commonNames (single "2.5.4.3" "till\\") (single "2.5.4.3" "till,") := by
  have readOne : readCertificate (commonNameDer "till\\") = some (single "2.5.4.3" "till\\") := by
    decide
  have readTwo : readCertificate (commonNameDer "till,") = some (single "2.5.4.3" "till,") := by
    decide
  exact subject_dn_injective commonNames readCertificate readOne readTwo
    (single_fit _ (by decide)) (single_fit _ (by decide))

end Saffui.Crypto.X509
