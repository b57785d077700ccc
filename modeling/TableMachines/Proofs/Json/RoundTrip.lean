import TableMachines.Finite.Forms
import TableMachines.Proofs.Json.Lawful
import TableMachines.Pushdown.Forms
import TableMachines.Turing.Forms

namespace TableMachines

variable {S C : Type} [Serial S] [Serial C] [LawfulSerial S] [LawfulSerial C]

instance : LawfulSerial Direction where
  decode?_encode d := by cases d with
    | left => rfl
    | right => rfl
  encode_ne_null _ := nofun

instance : LawfulSerial HeadStart where
  decode?_encode h := by cases h with
    | first => rfl
    | last => rfl
  encode_ne_null _ := nofun

instance : LawfulSerial Halt where
  decode?_encode h := by cases h with
    | accepted => rfl
    | stuck => rfl
  encode_ne_null _ := nofun

instance : LawfulSerial (Control S) where
  decode?_encode c := by
    cases c with
    | active s => exact congrArg (Option.map Control.active) (decode?_encode s)
    | stuck => rfl
  encode_ne_null c := by
    cases c with
    | active s => nofun
    | stuck => nofun

-- A record's fields are found under their names; then each of them is decoded.
instance : LawfulSerial (Stack C) where
  decode?_encode s := by
    refine (Json.bind_fields?_record [("contents", encode s.symbols)] (by simp) _).trans ?_
    simp [Json.required?_encode]
  encode_ne_null _ := nofun

instance : LawfulSerial (Tape C) where
  decode?_encode t := by
    refine (Json.bind_fields?_record [("left", encode t.leftCells), ("middle", encode t.scanned),
      ("right", encode t.right), ("blank", encode t.blank)] (by simp) _).trans ?_
    simp [Json.required?_encode, Tape.leftCells]
  encode_ne_null _ := nofun

instance : LawfulSerial (FiniteRule S C) where
  decode?_encode r := by
    refine (Json.bind_fields?_record [("state", encode r.source), ("character", encode r.trigger),
      ("next_state", encode r.target)] (by simp) _).trans ?_
    simp [Json.required?_encode, Json.optional?_encode]
  encode_ne_null _ := nofun

instance : LawfulSerial (PushdownRule S C) where
  decode?_encode r := by
    refine (Json.bind_fields?_record [("state", encode r.source), ("character", encode r.trigger),
      ("next_state", encode r.target), ("pop_character", encode r.pop),
      ("push_characters", encode r.push)] (by simp) _).trans ?_
    simp [Json.required?_encode, Json.optional?_encode]
  encode_ne_null _ := nofun

instance : LawfulSerial (TuringRule S C) where
  decode?_encode r := by
    refine (Json.bind_fields?_record [("state", encode r.source), ("character", encode r.scanned),
      ("next_state", encode r.target), ("write_character", encode r.write),
      ("direction", encode r.direction)] (by simp) _).trans ?_
    simp [Json.required?_encode]
  encode_ne_null _ := nofun

omit [LawfulSerial C] in
theorem Stack.write_eq (s : Stack C) : Serial.write s =
    "\x7b\"contents\":" ++ Serial.write s.bottomFirst.reverse ++ "\x7d" := by
  have hname : Json.quoted (some "contents") = "\"contents\"".toList := by decide
  have hchars : (encode s).chars =
      '\x7b' :: Json.quoted (some "contents") ++ ':' :: (encode s.symbols).chars ++ ['\x7d'] := by
    show Json.chars (.obj [(some "contents", encode s.symbols)]) = _
    rw [Json.chars, Json.memberChars]
  apply String.toList_inj.1
  simp [Serial.write, Json.compact, hchars, hname, Stack.bottomFirst]

omit [LawfulSerial S] in
theorem FiniteRule.get?_character_iff (r : FiniteRule S C) :
    (encode r).get? "character" = some .null ↔ r.trigger = none := by
  have hget : (encode r).get? "character" = some (encode r.trigger) := rfl
  rw [hget, Option.some_inj, encode_eq_null_iff]

omit [LawfulSerial S] in
theorem PushdownRule.get?_character_iff (r : PushdownRule S C) :
    (encode r).get? "character" = some .null ↔ r.trigger = none := by
  have hget : (encode r).get? "character" = some (encode r.trigger) := rfl
  rw [hget, Option.some_inj, encode_eq_null_iff]

def Serial.RoundTrips (α : Type) [Serial α] : Prop :=
  ∀ a : α, Serial.read? (Serial.write a) = some a ∧
    (Serial.read? (Serial.write a) : Option α).map Serial.write = some (Serial.write a)

theorem Serial.roundTrips (α : Type) [Serial α] [LawfulSerial α] : Serial.RoundTrips α := by
  intro a
  rw [Serial.read?_write]
  exact ⟨rfl, rfl⟩

structure FormsRoundTrip (S C : Type) [Serial S] [Serial C] : Prop where
  state : Serial.RoundTrips S
  symbol : Serial.RoundTrips C
  control : Serial.RoundTrips (Control S)
  stack : Serial.RoundTrips (Stack C)
  tape : Serial.RoundTrips (Tape C)
  direction : Serial.RoundTrips Direction
  headStart : Serial.RoundTrips HeadStart
  halt : Serial.RoundTrips Halt
  finiteRule : Serial.RoundTrips (FiniteRule S C)
  pushdownRule : Serial.RoundTrips (PushdownRule S C)
  turingRule : Serial.RoundTrips (TuringRule S C)
  topFirst : ∀ s : Stack C, Serial.write s =
    "\x7b\"contents\":" ++ Serial.write s.bottomFirst.reverse ++ "\x7d"
  finiteTrigger : ∀ r : FiniteRule S C,
    (encode r).get? "character" = some .null ↔ r.trigger = none
  pushdownTrigger : ∀ r : PushdownRule S C,
    (encode r).get? "character" = some .null ↔ r.trigger = none

theorem formsRoundTrip (S C : Type) [Serial S] [Serial C] [LawfulSerial S] [LawfulSerial C] :
    FormsRoundTrip S C where
  state := Serial.roundTrips S
  symbol := Serial.roundTrips C
  control := Serial.roundTrips (Control S)
  stack := Serial.roundTrips (Stack C)
  tape := Serial.roundTrips (Tape C)
  direction := Serial.roundTrips Direction
  headStart := Serial.roundTrips HeadStart
  halt := Serial.roundTrips Halt
  finiteRule := Serial.roundTrips (FiniteRule S C)
  pushdownRule := Serial.roundTrips (PushdownRule S C)
  turingRule := Serial.roundTrips (TuringRule S C)
  topFirst := Stack.write_eq
  finiteTrigger := FiniteRule.get?_character_iff
  pushdownTrigger := PushdownRule.get?_character_iff

theorem written_forms_read_back :
    FormsRoundTrip UInt32 Char ∧ FormsRoundTrip String Char ∧
      FormsRoundTrip (SortedSet UInt32) Char ∧ FormsRoundTrip UInt32 String ∧
        FormsRoundTrip Int64 Int64 := by
  refine ⟨?_, ?_, ?_, ?_, ?_⟩
  · exact formsRoundTrip UInt32 Char
  · exact formsRoundTrip String Char
  · exact formsRoundTrip (SortedSet UInt32) Char
  · exact formsRoundTrip UInt32 String
  · exact formsRoundTrip Int64 Int64

end TableMachines
