namespace TableMachines

class Ordered (α : Type) extends Ord α, Std.TransOrd α, Std.LawfulEqOrd α where
  decEq : DecidableEq α

attribute [reducible, instance] Ordered.decEq

namespace Ordered

variable {α β : Type}

@[reducible] def ofKey [Ordered α] [dec : DecidableEq β] (key : β → α)
    (injective : ∀ x y, key x = key y → x = y) : Ordered β where
  compare x y := compare (key x) (key y)
  eq_swap := Std.OrientedOrd.eq_swap
  isLE_trans := Std.TransOrd.isLE_trans
  compare_self := Std.ReflOrd.compare_self
  eq_of_compare h := injective _ _ (Std.LawfulEqOrd.eq_of_compare h)
  decEq := dec

instance : Ordered Bool where
  decEq := inferInstance

instance : Ordered UInt32 where
  decEq := inferInstance

instance : Ordered Int64 where
  decEq := inferInstance

instance : Ordered Char where
  decEq := inferInstance

instance : Ordered String where
  decEq := inferInstance

instance [Ordered α] : Ordered (List α) where
  decEq := inferInstance

instance [Ordered α] : Ordered (Option α) where
  decEq := inferInstance

instance [Ordered α] [Ordered β] : Ordered (α × β) where
  toOrd := lexOrd
  toTransCmp := inferInstanceAs (Std.TransCmp (compareLex (compareOn Prod.fst) (compareOn Prod.snd)))
  toLawfulEqCmp := inferInstance
  decEq := inferInstance

end Ordered

end TableMachines
