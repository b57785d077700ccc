import TableMachines.Json.Serial
import TableMachines.Proofs.Json.Reading

/-!
No covered type has a value that is written as null, so an optional value can tell its absence
from all that may be present.
-/

namespace TableMachines

class LawfulSerial (α : Type) [Serial α] : Prop where
  decode?_encode : ∀ a : α, decode? (encode a) = some a
  encode_ne_null : ∀ a : α, encode a ≠ .null

export LawfulSerial (decode?_encode encode_ne_null)

theorem mapM_map_eq_some {α β γ : Type} {l : List α} {f : α → β} {g : β → Option γ} {h : α → γ}
    (hg : ∀ a ∈ l, g (f a) = some (h a)) : (l.map f).mapM g = some (l.map h) := by
  induction l with
  | nil => rfl
  | cons a l ih =>
    have hrest := ih fun b hb => hg b (List.mem_cons_of_mem a hb)
    simp [hg a List.mem_cons_self, hrest]

section

variable {α : Type} [Serial α] [LawfulSerial α]

theorem Serial.read?_write (a : α) : Serial.read? (Serial.write a) = some a := by
  rw [Serial.read?, Serial.write, Json.read?_compact]
  exact decode?_encode a

theorem encode_eq_null_iff {o : Option α} : encode o = .null ↔ o = none := by
  cases o with
  | none => exact ⟨fun _ => rfl, fun _ => rfl⟩
  | some a => exact ⟨fun h => absurd h (encode_ne_null a), fun h => by cases h⟩

namespace Json

theorem required?_encode (a : α) : required? (some (encode a)) = some a :=
  decode?_encode a

theorem optional?_encode (o : Option α) : optional? (some (encode o)) = some o := by
  cases o with
  | none => rfl
  | some a =>
    show optional? (some (encode a)) = some (some a)
    unfold optional?
    split
    · cases ‹_›
    · next h => exact absurd (Option.some.inj h) (encode_ne_null a)
    · next h =>
      cases h
      rw [decode?_encode]
      rfl

end Json

end

namespace Json

theorem filter_members {l : List (String × Json)} (hl : (l.map Prod.fst).Nodup) {name : String}
    {value : Json} (hmem : (name, value) ∈ l) :
    (l.map fun (name, value) => (some name, value)).filter (·.1 == some name) =
      [(some name, value)] := by
  induction l with
  | nil => cases hmem
  | cons field l ih =>
    obtain ⟨hnew, hl⟩ := List.nodup_cons.1 hl
    rcases List.mem_cons.1 hmem with rfl | hmem
    · have hnone : (l.map fun (name, value) => (some name, value)).filter (·.1 == some name) = [] := by
        apply List.filter_eq_nil_iff.2
        intro member hmember heq
        obtain ⟨field, hfield, rfl⟩ := List.mem_map.1 hmember
        have hname : field.1 = name := by simpa using heq
        exact hnew (List.mem_map.2 ⟨field, hfield, hname⟩)
      rw [List.map_cons, List.filter_cons_of_pos (by simp), hnone]
    · have hne : field.1 ≠ name := fun hname => hnew (List.mem_map.2 ⟨_, hmem, hname.symm⟩)
      rw [List.map_cons, List.filter_cons_of_neg (by simpa using hne)]
      exact ih hl hmem

theorem fields?_record (l : List (String × Json)) (hl : (l.map Prod.fst).Nodup) :
    (record l).fields? (l.map Prod.fst) = some (l.map fun field => some field.2) := by
  have hall : (l.map fun (name, value) => (some name, value)).all (·.1.isSome) = true := by simp
  rw [record, fields?, if_pos hall]
  apply mapM_map_eq_some
  intro field hfield
  rw [filter_members hl hfield]

theorem bind_fields?_record {α : Type} (l : List (String × Json)) (hl : (l.map Prod.fst).Nodup)
    (next : List (Option Json) → Option α) :
    ((record l).fields? (l.map Prod.fst)).bind next = next (l.map fun field => some field.2) := by
  rw [fields?_record l hl]
  rfl

end Json

section Instances

instance : LawfulSerial UInt32 where
  decode?_encode n := by
    have hn := n.toNat_lt
    have hbounds : 0 ≤ (n.toNat : Int) ∧ (n.toNat : Int) < UInt32.size := by
      simp only [UInt32.size]
      omega
    show (if 0 ≤ (n.toNat : Int) ∧ (n.toNat : Int) < UInt32.size then
      some (UInt32.ofNat (n.toNat : Int).toNat) else none) = some n
    rw [if_pos hbounds, Int.toNat_natCast, UInt32.ofNat_toNat]
  encode_ne_null _ := nofun

instance : LawfulSerial Int64 where
  decode?_encode i := by
    have hbounds := And.intro i.minValue_le_toInt i.toInt_le
    show (if Int64.minValue.toInt ≤ i.toInt ∧ i.toInt ≤ Int64.maxValue.toInt then
      some (Int64.ofInt i.toInt) else none) = some i
    rw [if_pos hbounds, Int64.ofInt_toInt]
  encode_ne_null _ := nofun

instance : LawfulSerial Char where
  decode?_encode c := by
    simp [encode, decode?, Json.text]
  encode_ne_null _ := nofun

instance : LawfulSerial String where
  decode?_encode _ := rfl
  encode_ne_null _ := nofun

variable {α : Type} [Serial α] [LawfulSerial α]

instance : LawfulSerial (List α) where
  decode?_encode l := by
    have hall := mapM_map_eq_some (l := l) (h := id) fun a _ => decode?_encode a
    rwa [List.map_id] at hall
  encode_ne_null _ := nofun

instance [Ordered α] : LawfulSerial (SortedSet α) where
  decode?_encode s := by
    show (decode? (encode s.toList)).map SortedSet.ofList = some s
    rw [decode?_encode, Option.map_some]
    congr 1
    ext a
    rw [SortedSet.mem_ofList, SortedSet.mem_toList]
  encode_ne_null _ := nofun

end Instances

end TableMachines
