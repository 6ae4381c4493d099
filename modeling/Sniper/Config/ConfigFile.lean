import Mathlib.Data.List.Induction

/-!
# Configuration files

A key of a section has a default value, and values that override it for single indices. A new default
removes the overrides. `hasKey` without an index is also true for a key that has overrides only, and
then `getKey` follows a null pointer.

`SaveTreeAs` puts a value that is not a number in quotes and escapes it, but a name only if it has a
blank or a quote. `unEscapeText` takes every backslash for the start of an escape, also without
quotes.
-/

namespace Sniper.Config

open List Function

structure Add (α : Type) where
  name : String
  /-- `none` is `UINT64_MAX`. -/
  index : Option ℕ
  value : α

structure Section (α : Type) where
  keys : String → Option α
  arrayKeys : String → Option (List (Option α))

variable {α : Type} (fold : String → String)

namespace Section

def empty : Section α := ⟨fun _ => none, fun _ => none⟩

/-- `fold` makes a name lower-case, unless the section is case sensitive. -/
def addKey (s : Section α) (add : Add α) : Section α :=
  let iname := fold add.name
  match add.index with
  | none =>
    { keys := update s.keys iname (some add.value)
      arrayKeys := update s.arrayKeys iname none }
  | some index =>
    let arr := match s.arrayKeys iname with
      | some arr => if arr.length < index + 1 then arr.rightpad (index + 1) none
        else arr.set index none
      | none => replicate (index + 1) none
    { s with
      arrayKeys := update s.arrayKeys iname (some (arr.set index (some add.value))) }

def ofAdds (adds : List (Add α)) : Section α := adds.foldl (addKey fold) empty

def override (s : Section α) (iname : String) (index : ℕ) : Option α :=
  ((s.arrayKeys iname).bind (·[index]?)).join

/-- `none` is a null pointer. -/
def getKey (s : Section α) (name : String) : Option ℕ → Option α
  | none => s.keys (fold name)
  | some index => (s.override (fold name) index).or (s.keys (fold name))

def hasKey (s : Section α) (name : String) : Option ℕ → Bool
  | none => (s.keys (fold name)).isSome || (s.arrayKeys (fold name)).isSome
  | some index => (s.override (fold name) index).isSome || (s.keys (fold name)).isSome

end Section

open Section

/-- The latest key under the name without an index, or with that of the query. -/
def latest (adds : List (Add α)) (name : String) (index : Option ℕ) : Option α :=
  (adds.reverse.find? fun add =>
    fold add.name = fold name ∧ (add.index = none ∨ add.index = index)).map Add.value

variable {fold} {s : Section α} {add : Add α} {name : String}

lemma addKey_other (other : fold add.name ≠ fold name) :
    (s.addKey fold add).keys (fold name) = s.keys (fold name) ∧
      (s.addKey fold add).arrayKeys (fold name) = s.arrayKeys (fold name) := by
  unfold addKey
  cases add.index <;> simp [Ne.symm other]

lemma override_addKey {index : ℕ} (same : fold add.name = fold name)
    (indexed : add.index = some index) (i : ℕ) : (s.addKey fold add).override (fold name) i =
      if i = index then some add.value else s.override (fold name) i := by
  simp only [override, addKey, indexed, same, update_self, Option.bind_some, getElem?_set]
  by_cases here : i = index
  · rw [if_pos here, if_pos here.symm, if_pos]
    · rfl
    · cases s.arrayKeys (fold name) with
      | none => simp
      | some arr => by_cases short : arr.length < index + 1 <;> simp [short] <;> omega
  · rw [if_neg here, if_neg (Ne.symm here)]
    cases s.arrayKeys (fold name) with
    | none =>
      simp only [getElem?_replicate]
      split <;> rfl
    | some arr =>
      by_cases short : arr.length < index + 1
      · simp [short, getElem?_append]
        grind
      · simp [short, getElem?_set_ne (Ne.symm here)]

lemma latest_concat (adds : List (Add α)) (add : Add α) (name : String) (index : Option ℕ) :
    latest fold (adds ++ [add]) name index =
      if fold add.name = fold name ∧ (add.index = none ∨ add.index = index) then some add.value
      else latest fold adds name index := by
  rw [latest, reverse_append, reverse_singleton, singleton_append, find?_cons]
  split <;> simp_all [latest]

lemma run_addKey (fold : String → String) (adds : List (Add α)) (name : String) :
    (ofAdds fold adds).keys (fold name) = latest fold adds name none ∧
    (∀ i, (ofAdds fold adds).getKey fold name (some i) = latest fold adds name (some i)) ∧
    ((ofAdds fold adds).hasKey fold name none = true ↔
      ∃ add ∈ adds, fold add.name = fold name) := by
  induction adds using reverseRecOn with
  | nil => simp [latest, ofAdds, empty, getKey, hasKey, override]
  | append_singleton adds add ih =>
    obtain ⟨keys, gets, has⟩ := ih
    have next : ofAdds fold (adds ++ [add]) = (ofAdds fold adds).addKey fold add := foldl_append
    rw [next]
    simp only [latest_concat]
    by_cases same : fold add.name = fold name
    · cases indexed : add.index with
      | none => simp [getKey, hasKey, override, addKey, indexed, same]
      | some index =>
        refine ⟨by simpa [addKey, indexed, same] using keys, fun i => ?_, ?_⟩
        · rw [getKey, override_addKey same indexed]
          by_cases here : i = index
          · simp [here, same]
          · rw [if_neg here, ← gets i]
            simp [getKey, addKey, indexed, Ne.symm here]
        · simp [hasKey, addKey, indexed, same]
    · obtain ⟨keys', arrays⟩ := addKey_other (s := ofAdds fold adds) same
      refine ⟨by simpa [same, keys'] using keys, fun i => ?_, ?_⟩
      · simpa [getKey, override, keys', arrays, same] using gets i
      · rw [hasKey, keys', arrays, ← hasKey, has]
        simp [same]

/-- A query gets the latest key whenever there is one, exactly if it has an index, or no key was
added under the name, or one without an index. -/
theorem getKey_latest_iff (fold : String → String) (adds : List (Add α)) (name : String)
    (index : Option ℕ) :
    ((ofAdds fold adds).hasKey fold name index = true → ∃ key,
      (ofAdds fold adds).getKey fold name index = some key ∧
        latest fold adds name index = some key) ↔
    (index = none → ∀ add ∈ adds, fold add.name = fold name →
      ∃ other ∈ adds, fold other.name = fold name ∧ other.index = none) := by
  obtain ⟨keys, gets, has⟩ := run_addKey fold adds name
  cases index with
  | some i =>
    refine iff_of_true (fun known => ?_) (by simp)
    rw [gets i]
    have known : (getKey fold (ofAdds fold adds) name (some i)).isSome = true := by
      simpa [getKey, hasKey] using known
    rw [gets i] at known
    exact (Option.isSome_iff_exists.mp known).imp fun _ found => ⟨found, found⟩
  | none =>
    have known : (∃ key, getKey fold (ofAdds fold adds) name none = some key ∧
        latest fold adds name none = some key) ↔
        ∃ other ∈ adds, fold other.name = fold name ∧ other.index = none := by
      rw [getKey, keys]
      simp [latest, ← Option.isSome_iff_exists]
    rw [has, known]
    simp

/-- Only an override was added. -/
theorem override_only :
    let s := ofAdds id [⟨"clock", some 0, 1⟩]
    s.hasKey id "clock" none = true ∧ s.getKey id "clock" none = none :=
  ⟨rfl, rfl⟩

/-! ## Texts -/

abbrev Text := List Char

def escapeText (source : Text) : Text :=
  source.flatMap fun c => if c = '\\' ∨ c = '"' then ['\\', c] else [c]

def unEscapeChar : Char → Char
  | 'b' => '\x08'
  | 'r' => '\r'
  | 'f' => '\x0c'
  | 't' => '\t'
  | 'n' => '\n'
  | c => c

/-- The loop of `unEscapeText`. -/
def unEscape : (backslash : Bool) → Text → Text
  | _, [] => []
  | true, c :: rest => unEscapeChar c :: unEscape false rest
  | false, c :: rest => if c = '\\' then unEscape true rest else c :: unEscape false rest

def unEscapeText (source : Text) : Text :=
  if 2 ≤ source.length ∧ source.head? = some '"' ∧ source.getLast? = some '"' then
    unEscape false source.tail.dropLast
  else unEscape false source

def quoted (source : Text) : Text := '"' :: (escapeText source ++ ['"'])

/-- What `SaveTreeAs` writes for a name. -/
def savedName (name : Text) : Text := if ' ' ∈ name ∨ '"' ∈ name then quoted name else name

/-- What `SaveTreeAs` writes for a value. -/
def savedValue (isNumber : Bool) (value : Text) : Text := if isNumber then value else quoted value

lemma unEscape_escapeText (s : Text) : unEscape false (escapeText s) = s := by
  induction s with
  | nil => rfl
  | cons c rest ih =>
    rw [escapeText, flatMap_cons]
    change unEscape false (_ ++ escapeText rest) = _
    by_cases special : c = '\\' ∨ c = '"'
    · rw [if_pos special]
      have same : unEscapeChar c = c := by rcases special with rfl | rfl <;> rfl
      simp [unEscape, same, ih]
    · rw [if_neg special]
      simp [unEscape, mt Or.inl special, ih]

lemma unEscapeText_quoted (s : Text) : unEscapeText (quoted s) = s := by
  have enclosed : 2 ≤ (quoted s).length ∧ (quoted s).head? = some '"' ∧
      (quoted s).getLast? = some '"' :=
    ⟨by simp [quoted], rfl, List.getLast?_concat (l := '"' :: escapeText s)⟩
  rw [unEscapeText, if_pos enclosed, quoted, tail_cons, dropLast_concat,
    unEscape_escapeText]

lemma length_unEscape_le (backslash : Bool) (s : Text) :
    (unEscape backslash s).length ≤ s.length := by
  fun_induction unEscape backslash s with
  | case1 => exact Nat.le_refl _
  | case2 c rest ih => exact Nat.succ_le_succ ih
  | case3 rest ih => exact Nat.le_succ_of_le ih
  | case4 c rest plain ih => exact Nat.succ_le_succ ih

/-- A text without quotes loses its backslashes. -/
lemma unEscape_eq_iff (s : Text) : unEscape false s = s ↔ '\\' ∉ s := by
  induction s with
  | nil => simp [unEscape]
  | cons c rest ih =>
    rw [unEscape]
    split
    · next backslash =>
      have shorter := length_unEscape_le true rest
      refine iff_of_false (fun same => ?_) (by simp [backslash])
      rw [same] at shorter
      exact absurd shorter (Nat.not_succ_le_self _)
    · next plain => simp [ih, Ne.symm plain]

/-- A value that is not a number is read back as it was, and a name exactly when it has no backslash
or is put in quotes. -/
theorem unEscapeText_saved_iff (s : Text) : unEscapeText (savedValue false s) = s ∧
    (unEscapeText (savedName s) = s ↔ '\\' ∉ s ∨ ' ' ∈ s ∨ '"' ∈ s) := by
  refine ⟨unEscapeText_quoted s, ?_⟩
  rw [savedName]
  split
  · next quotes => exact iff_of_true (unEscapeText_quoted s) (.inr quotes)
  · next raw =>
    have unquoted : s.head? ≠ some '"' := fun first => raw (.inr (mem_of_mem_head? first))
    rw [unEscapeText, if_neg (fun enclosed => unquoted enclosed.2.1), unEscape_eq_iff,
      or_iff_left raw]

theorem backslash_lost : unEscapeText (savedName ['a', '\\', 'c']) = ['a', 'c'] := by
  decide

end Sniper.Config
