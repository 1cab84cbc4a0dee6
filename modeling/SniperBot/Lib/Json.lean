import Mathlib.Logic.Basic

/-!
# JSON values

Values over any type of numbers. What stands under a hidden key is replaced by null or left out
together with the key, at any depth; what has been left out does not tell what was replaced.
-/

namespace SniperBot.Lib.Json

/-- The members of an object are in the order of their keys. -/
inductive Value (N : Type) where
  | null
  | bool (b : Bool)
  | number (n : N)
  | string (s : String)
  | array (items : List (Value N))
  | object (members : List (String × Value N))

variable {N : Type} (hidden : String → Bool)

mutual

def Value.mask : Value N → Value N
  | .array items => .array (maskItems items)
  | .object members => .object (maskMembers members)
  | v => v

def maskItems : List (Value N) → List (Value N)
  | [] => []
  | v :: items => v.mask :: maskItems items

def maskMembers : List (String × Value N) → List (String × Value N)
  | [] => []
  | (key, v) :: members => (key, if hidden key then .null else v.mask) :: maskMembers members

end

mutual

def Value.prune : Value N → Value N
  | .array items => .array (pruneItems items)
  | .object members => .object (pruneMembers members)
  | v => v

def pruneItems : List (Value N) → List (Value N)
  | [] => []
  | v :: items => v.prune :: pruneItems items

def pruneMembers : List (String × Value N) → List (String × Value N)
  | [] => []
  | (key, v) :: members =>
    if hidden key then pruneMembers members else (key, v.prune) :: pruneMembers members

end

mutual

theorem Value.prune_mask : (v : Value N) → (v.mask hidden).prune hidden = v.prune hidden
  | .null | .bool _ | .number _ | .string _ => rfl
  | .array items => congrArg Value.array (pruneItems_mask items)
  | .object members => congrArg Value.object (pruneMembers_mask members)

theorem pruneItems_mask :
    (items : List (Value N)) → pruneItems hidden (maskItems hidden items) = pruneItems hidden items
  | [] => rfl
  | v :: items => congrArg₂ List.cons v.prune_mask (pruneItems_mask items)

theorem pruneMembers_mask : (members : List (String × Value N)) →
    pruneMembers hidden (maskMembers hidden members) = pruneMembers hidden members
  | [] => rfl
  | (key, v) :: members => by
    unfold maskMembers pruneMembers
    cases hidden key with
    | true => exact pruneMembers_mask members
    | false => exact congrArg₂ List.cons (congrArg (key, ·) v.prune_mask) (pruneMembers_mask members)

end

theorem maskMembers_eq_map (members : List (String × Value N)) : maskMembers hidden members =
    members.map fun (key, v) => (key, if hidden key then .null else v.mask hidden) := by
  induction members with
  | nil => rfl
  | cons member members ih => exact congrArg (_ :: ·) ih

namespace Value

def asObject : Value N → Option (List (String × Value N))
  | .object members => some members
  | _ => none

def asStr : Value N → Option String
  | .string s => some s
  | _ => none

def asNumber : Value N → Option N
  | .number n => some n
  | _ => none

def get (v : Value N) (key : String) : Option (Value N) := v.asObject.bind (·.lookup key)

variable {hidden} (v : Value N)

theorem asStr_mask : (v.mask hidden).asStr = v.asStr := by cases v <;> rfl

theorem asNumber_mask : (v.mask hidden).asNumber = v.asNumber := by cases v <;> rfl

theorem asObject_mask : (v.mask hidden).asObject = v.asObject.map (maskMembers hidden) := by
  cases v <;> rfl

/-- What stands under a key that is not hidden is masked in turn. -/
theorem get_mask {key : String} (hk : hidden key = false) :
    (v.mask hidden).get key = (v.get key).map (mask hidden) := by
  unfold get
  rw [asObject_mask]
  cases v.asObject with
  | none => rfl
  | some members =>
    show (maskMembers hidden members).lookup key = (members.lookup key).map (mask hidden)
    induction members with
    | nil => rfl
    | cons member members ih =>
      obtain ⟨k, v⟩ := member
      rw [maskMembers, List.lookup_cons, List.lookup_cons, ih]
      cases he : key == k with
      | false => rfl
      | true =>
        rw [← eq_of_beq he, hk]
        rfl

end Value

end SniperBot.Lib.Json
