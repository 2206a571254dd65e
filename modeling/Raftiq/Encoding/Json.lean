import Raftiq.Encoding.Base64
import Mathlib.Data.Finmap

namespace Raftiq

/-! Typed values are read from the tree of a JSON text, as `encoding/json` does it: `null` leaves the zero
value, and an object may name a member twice, in which case the last one counts. -/

/-- Number literals and members are kept as they are written. -/
inductive Json where
  | null
  | bool (value : Bool)
  | number (literal : String)
  | string (text : String)
  | array (elements : List Json)
  | object (members : List (String × Json))

inductive UnmarshalError (Malformed : Type) where
  | malformed (error : Malformed)
  | wrongType
  | corruptBase64
deriving DecidableEq, Repr

/-- Texts and their trees. -/
structure JsonText where
  Malformed : Type
  marshal : Json → List UInt8
  parse : List UInt8 → Except Malformed Json

namespace Json

variable {Malformed α : Type}

/-- Only the digits of a number are read; a sign, a fraction or an exponent is an error. -/
def readUint (bits : ℕ) : Json → Except (UnmarshalError Malformed) ℕ
  | .null => .ok 0
  | .number literal =>
      let digits := literal.toList
      if digits ≠ [] ∧ digits.all Char.isDigit ∧ Nat.ofDigitChars 10 digits 0 < 2 ^ bits then
        .ok (Nat.ofDigitChars 10 digits 0)
      else .error .wrongType
  | _ => .error .wrongType

def readAll (read : Json → Except (UnmarshalError Malformed) α) :
    List Json → Except (UnmarshalError Malformed) (List α)
  | [] => .ok []
  | element :: rest =>
      match read element with
      | .error error => .error error
      | .ok value =>
          match readAll read rest with
          | .error error => .error error
          | .ok values => .ok (value :: values)

def readBytes : Json → Except (UnmarshalError Malformed) (List UInt8)
  | .null => .ok []
  | .string text =>
      match Base64.decode text.toList with
      | none => .error .corruptBase64
      | some bytes => .ok bytes
  | .array elements =>
      match readAll (readUint 8) elements with
      | .error error => .error error
      | .ok values => .ok (values.map UInt8.ofNat)
  | _ => .error .wrongType

def readMembers (read : Json → Except (UnmarshalError Malformed) α) :
    Finmap (fun _ : String => α) → List (String × Json) →
      Except (UnmarshalError Malformed) (Finmap fun _ : String => α)
  | map, [] => .ok map
  | map, (key, value) :: rest =>
      match read value with
      | .error error => .error error
      | .ok value => readMembers read (map.insert key value) rest

def readMap (read : Json → Except (UnmarshalError Malformed) α) :
    Json → Except (UnmarshalError Malformed) (Finmap fun _ : String => α)
  | .null => .ok ∅
  | .object members => readMembers read ∅ members
  | _ => .error .wrongType

def ofBytes (bytes : List UInt8) : Json :=
  .string (String.ofList (Base64.encode bytes))

theorem readBytes_ofBytes (bytes : List UInt8) :
    readBytes (ofBytes bytes) = (.ok bytes : Except (UnmarshalError Malformed) _) := by
  unfold ofBytes readBytes
  dsimp only
  rw [String.toList_ofList, Base64.decode_encode]

/-- The object of a map whose keys are gone through in some order. -/
def ofMap (write : α → Json) (map : Finmap fun _ : String => α) (order : List String) : Json :=
  .object (order.filterMap fun key => (map.lookup key).map fun value => (key, write value))

/-- A member that is read replaces what the map held. -/
theorem readMembers_ofMap {β : Type} (read : Json → Except (UnmarshalError Malformed) β) (write : α → Json)
    (meaning : α → β) (reads : ∀ value, read (write value) = .ok (meaning value))
    (map : Finmap fun _ : String => α) (order : List String) (start : Finmap fun _ : String => β) :
    ∃ final, readMembers read start
        (order.filterMap fun key => (map.lookup key).map fun value => (key, write value)) = .ok final ∧
      ∀ key, final.lookup key = if key ∈ order ∧ (map.lookup key).isSome then (map.lookup key).map meaning
        else start.lookup key := by
  induction order generalizing start with
  | nil => exact ⟨start, rfl, fun key => by simp⟩
  | cons first rest ih =>
      cases found : map.lookup first with
      | none =>
          obtain ⟨final, same, lookups⟩ := ih start
          refine ⟨final, by rwa [List.filterMap_cons_none (by rw [found]; rfl)], fun key => ?_⟩
          rw [lookups]
          by_cases own : key = first
          · subst own
            simp [found]
          · simp [own]
      | some value =>
          obtain ⟨final, same, lookups⟩ := ih (start.insert first (meaning value))
          refine ⟨final, ?_, fun key => ?_⟩
          · rw [List.filterMap_cons_some (by rw [found]; rfl), readMembers, reads]
            exact same
          · rw [lookups]
            by_cases own : key = first
            · subst own
              simp [found]
            · simp [own, Finmap.lookup_insert_of_ne _ own]

theorem readMap_ofMap {β : Type} (read : Json → Except (UnmarshalError Malformed) β) (write : α → Json)
    (meaning : α → β) (reads : ∀ value, read (write value) = .ok (meaning value))
    {map : Finmap fun _ : String => α} {order : List String}
    (complete : ∀ key, (map.lookup key).isSome → key ∈ order) :
    ∃ final, readMap read (ofMap write map order) = .ok final ∧
      ∀ key, final.lookup key = (map.lookup key).map meaning := by
  obtain ⟨final, same, lookups⟩ := readMembers_ofMap read write meaning reads map order ∅
  refine ⟨final, same, fun key => ?_⟩
  rw [lookups]
  cases found : map.lookup key with
  | none => simp
  | some value => simp [complete key (by rw [found]; rfl)]

end Json

def JsonText.unmarshal (text : JsonText) {α : Type}
    (read : Json → Except (UnmarshalError text.Malformed) α) (data : List UInt8) :
    Except (UnmarshalError text.Malformed) α :=
  match text.parse data with
  | .error error => .error (.malformed error)
  | .ok tree => read tree

end Raftiq
