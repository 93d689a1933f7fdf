import Mathlib.Data.List.Basic

/-!
# An ideal AEAD

A cipher that remembers what it encrypted: it answers an encryption with
anything, and decrypts what it answered and nothing else. All it keeps to is
that one answer, under one key, one nonce and one associated data, stands for
one plaintext.
-/

namespace Saffui.Foundation.IdealAead

variable {Key Nonce Data Text Answer : Type} [DecidableEq Key] [DecidableEq Nonce]
  [DecidableEq Data] [DecidableEq Answer]

/-- An encryption, and what it was answered with. -/
structure Encrypted (Key Nonce Data Text Answer : Type) where
  key : Key
  nonce : Nonce
  data : Data
  text : Text
  answer : Answer

/-- What an encryption can be asked for by. -/
def Encrypted.Is (made : Encrypted Key Nonce Data Text Answer) (key : Key) (nonce : Nonce)
    (data : Data) (answer : Answer) : Prop :=
  made.key = key ∧ made.nonce = nonce ∧ made.data = data ∧ made.answer = answer

instance (made : Encrypted Key Nonce Data Text Answer) (key : Key) (nonce : Nonce) (data : Data)
    (answer : Answer) : Decidable (made.Is key nonce data answer) :=
  inferInstanceAs (Decidable (_ ∧ _ ∧ _ ∧ _))

/-- No answer stands for two plaintexts. -/
def Consistent (table : List (Encrypted Key Nonce Data Text Answer)) : Prop :=
  ∀ one ∈ table, ∀ other ∈ table, one.Is other.key other.nonce other.data other.answer →
    one.text = other.text

def decrypt (table : List (Encrypted Key Nonce Data Text Answer)) (key : Key) (nonce : Nonce)
    (data : Data) (answer : Answer) : Option Text :=
  (table.find? fun made => made.Is key nonce data answer).map Encrypted.text

/-- What is decrypted was encrypted. -/
theorem exists_of_decrypt {table : List (Encrypted Key Nonce Data Text Answer)} {key : Key}
    {nonce : Nonce} {data : Data} {answer : Answer} {text : Text}
    (read : decrypt table key nonce data answer = some text) :
    ∃ made ∈ table, made.Is key nonce data answer ∧ made.text = text := by
  obtain ⟨made, found, same⟩ := Option.map_eq_some_iff.mp read
  have held := List.find?_some found
  exact ⟨made, List.mem_of_find?_eq_some found, of_decide_eq_true held, same⟩

/-- What was encrypted is decrypted. -/
theorem decrypt_of_mem {table : List (Encrypted Key Nonce Data Text Answer)}
    (consistent : Consistent table) {made : Encrypted Key Nonce Data Text Answer}
    (inside : made ∈ table) :
    decrypt table made.key made.nonce made.data made.answer = some made.text := by
  have found : (table.find? fun other =>
      other.Is made.key made.nonce made.data made.answer).isSome := by
    rw [List.find?_isSome]
    exact ⟨made, inside, decide_eq_true ⟨rfl, rfl, rfl, rfl⟩⟩
  obtain ⟨other, same⟩ := Option.isSome_iff_exists.mp found
  have held := List.find?_some same
  have asked : other.Is made.key made.nonce made.data made.answer := of_decide_eq_true held
  have text := consistent other (List.mem_of_find?_eq_some same) made inside asked
  rw [decrypt, same, Option.map_some, text]

end Saffui.Foundation.IdealAead
