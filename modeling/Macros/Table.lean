/-!
Tables with text keys that keep the order in which keys first came. Writing a key that is there
changes its value in place.
-/

namespace Macros

abbrev Table (α : Type) := List (String × α)

namespace Table

variable {α : Type}

def get? : Table α → String → Option α
  | [], _ => none
  | (j, v) :: t, k => if k = j then some v else get? t k

def has (t : Table α) (k : String) : Bool := (t.get? k).isSome

def put : Table α → String → α → Table α
  | [], k, v => [(k, v)]
  | (j, w) :: t, k, v => if j = k then (j, v) :: t else (j, w) :: put t k v

def keys (t : Table α) : List String := t.map (·.1)

/-- Every entry of `u` written over `t`, in order. -/
def putAll (t u : Table α) : Table α := u.foldl (fun t e => t.put e.1 e.2) t

@[simp] theorem get?_nil (k : String) : get? ([] : Table α) k = none := rfl

@[simp] theorem get?_cons (j : String) (w : α) (t : Table α) (k : String) :
    get? ((j, w) :: t) k = if k = j then some w else get? t k := rfl

theorem mem_of_get? {t : Table α} {k : String} {v : α} (h : t.get? k = some v) : (k, v) ∈ t := by
  induction t with
  | nil => simp at h
  | cons e t ih =>
    obtain ⟨j, w⟩ := e
    rw [get?_cons] at h
    split at h
    · next hk =>
      obtain rfl := Option.some.inj h
      simp [hk]
    · exact List.mem_cons_of_mem _ (ih h)

@[simp] theorem get?_put (t : Table α) (k : String) (v : α) (j : String) :
    (t.put k v).get? j = if j = k then some v else t.get? j := by
  induction t with
  | nil => simp [put]
  | cons e t ih =>
    obtain ⟨i, w⟩ := e
    by_cases h : i = k
    · subst h
      simp only [put, if_true, get?_cons]
      split <;> rfl
    · simp only [put, h, if_false, get?_cons, ih]
      grind

end Table

/-- Text in the order of its code points. -/
def sortedTexts (names : List String) : List String :=
  names.mergeSort fun a b => !decide (b < a)

end Macros
