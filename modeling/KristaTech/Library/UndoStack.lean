import Mathlib.Algebra.Order.Ring.Int
import Mathlib.Data.List.Infix
import Mathlib.Order.Lattice

/-!
# A stack of values that remembers when each became current

The discipline of an undo log for one changing value. The stack holds the current value on top and
the values it replaced below, each with the *mark* (a height, a time) at which it became current.
Putting a value of another key pushes; putting one of the same key only overwrites the top. Undoing
names the key that was current and pops the top if it carries that key and is not older than the
mark being undone.

Two facts carry everything. `undo_all` says when a whole batch of puts is undone: the keys it
changed to, read backwards, must occur in order among the keys the undoing names. `Keeps` says what
a bounded stack, which forgets from the bottom, still knows: at least the newest `n` entries.
-/

namespace UndoStack

open List

variable {δ κ : Type*} [DecidableEq κ] (key : δ → κ)

/-! ### Putting and undoing -/

/-- Make `d` current at the mark `h`. -/
def put (h : ℤ) (s : List (ℤ × δ)) (d : δ) : List (ℤ × δ) :=
  match s with
  | [] => [(h, d)]
  | (f, c) :: t => if key c = key d then (min f h, d) :: t else (h, d) :: (f, c) :: t

/-- Take back a value of key `k` that became current at the mark `h` or later. -/
def undo (h : ℤ) (s : List (ℤ × δ)) (k : κ) : List (ℤ × δ) :=
  match s with
  | [] => []
  | (f, c) :: t => if key c = k ∧ h ≤ f then t else (f, c) :: t

def topKey (s : List (ℤ × δ)) : Option κ := s.head?.map fun e ↦ key e.2

/-- The keys that a batch of puts changes to, one for each change. -/
def changes : Option κ → List δ → List κ
  | _, [] => []
  | k, d :: ds => if k = some (key d) then changes k ds else key d :: changes (some (key d)) ds

/-- The stack a batch is put on, its top overwritten by the puts that precede the first change. -/
def base (s : List (ℤ × δ)) (ds : List δ) : List (ℤ × δ) :=
  match s with
  | [] => []
  | (f, c) :: t => (f, (ds.takeWhile fun d ↦ key d = key c).getLastD c) :: t

/-- How many values a batch pushes down: one for each change, the first not counting if there was
nothing to replace. -/
def pushes (k : Option κ) (ds : List δ) : ℕ :=
  (changes key k ds).length - if k.isNone then 1 else 0

/-- The top is older than the mark `h`. -/
def Older (h : ℤ) (s : List (ℤ × δ)) : Prop := ∀ e ∈ s.head?, e.1 < h

variable {h : ℤ}

/-! ### A batch of puts -/

theorem foldl_put_above {b : List (ℤ × δ)} (ds : List δ) : ∀ (c : δ) (above : List (ℤ × δ)),
    (∀ e ∈ above, e.1 = h) →
    ∃ above' : List (ℤ × δ), ds.foldl (put key h) ((h, c) :: above ++ b) = above' ++ b ∧
      above'.map (fun e ↦ key e.2) =
        (changes key (some (key c)) ds).reverse ++ key c :: above.map (fun e ↦ key e.2) ∧
      ∀ e ∈ above', e.1 = h := by
  induction ds with
  | nil =>
    intro c above habove
    exact ⟨(h, c) :: above, rfl, rfl, by simpa using habove⟩
  | cons d ds ih =>
    intro c above habove
    by_cases hkey : key c = key d
    · obtain ⟨above', hfold, hkeys, hmarks⟩ := ih d above habove
      refine ⟨above', ?_, ?_, hmarks⟩
      · simpa [put, hkey] using hfold
      · simpa [changes, hkey] using hkeys
    · obtain ⟨above', hfold, hkeys, hmarks⟩ := ih d ((h, c) :: above) (by simpa using habove)
      refine ⟨above', ?_, ?_, hmarks⟩
      · simpa [put, hkey] using hfold
      · simpa [changes, hkey] using hkeys

variable {s : List (ℤ × δ)} {n : ℕ}

/-- **What a batch of puts leaves**: on the overwritten stack, one new entry for each change. -/
theorem exists_above (hs : Older h s) (ds : List δ) :
    ∃ above : List (ℤ × δ), ds.foldl (put key h) s = above ++ base key s ds ∧
      above.map (fun e ↦ key e.2) = (changes key (topKey key s) ds).reverse ∧
      ∀ e ∈ above, e.1 = h := by
  induction ds generalizing s with
  | nil => exact ⟨[], by cases s <;> rfl, rfl, by simp⟩
  | cons d ds ih =>
    cases s with
    | nil =>
      obtain ⟨above, hfold, hkeys, hmarks⟩ := foldl_put_above key (b := []) ds d [] (by simp)
      exact ⟨above, by simpa [put, base] using hfold, by simpa [changes, topKey] using hkeys, hmarks⟩
    | cons e t =>
      obtain ⟨f, c⟩ := e
      have hf : f < h := hs (f, c) rfl
      by_cases hkey : key c = key d
      · -- still before the first change: only the top's value is overwritten
        have hs' : Older h ((f, d) :: t) := by simpa [Older] using hf
        obtain ⟨above, hfold, hkeys, hmarks⟩ := ih hs'
        refine ⟨above, ?_, ?_, hmarks⟩
        · simpa [put, base, hkey, min_eq_left hf.le, getLast?_cons] using hfold
        · simpa [changes, topKey, hkey] using hkeys
      · obtain ⟨above, hfold, hkeys, hmarks⟩ := foldl_put_above key (b := (f, c) :: t) ds d [] (by simp)
        refine ⟨above, ?_, ?_, hmarks⟩
        · simpa [put, base, hkey, Ne.symm hkey] using hfold
        · simpa [changes, topKey, hkey] using hkeys

/-! ### Undoing a batch -/

variable {key}

theorem undo_of_older (hs : Older h s) (k : κ) : undo key h s k = s := by
  cases s with
  | nil => rfl
  | cons e t =>
    have he : e.1 < h := hs e rfl
    simp [undo, Int.not_le.mpr he]

theorem foldl_undo_of_older (hs : Older h s) (ks : List κ) : ks.foldl (undo key h) s = s := by
  induction ks with
  | nil => rfl
  | cons k ks ih => rw [foldl_cons, undo_of_older hs, ih]

/-- **Undoing a batch.** Entries of the mark `h` are all popped as soon as the keys named, in their
order, contain the entries' keys, from the top down. -/
theorem foldl_undo_above {b : List (ℤ × δ)} (hb : Older h b) (ks : List κ) :
    ∀ above : List (ℤ × δ), (∀ e ∈ above, e.1 = h) →
      (above.map fun e ↦ key e.2).Sublist ks → ks.foldl (undo key h) (above ++ b) = b := by
  induction ks with
  | nil =>
    intro above _ hsub
    rw [map_eq_nil_iff.mp (sublist_nil.mp hsub)]
    rfl
  | cons k ks ih =>
    intro above hmarks hsub
    cases above with
    | nil => exact foldl_undo_of_older hb (k :: ks)
    | cons e above =>
      have he : e.1 = h := hmarks e mem_cons_self
      have hmarks' : ∀ e ∈ above, e.1 = h := fun e he ↦ hmarks e (mem_cons_of_mem _ he)
      by_cases hkey : key e.2 = k
      · -- the top is named: it is popped, and the rest of the names is left for the rest
        have hsub' : (above.map fun e ↦ key e.2).Sublist ks := by
          subst hkey
          simpa using hsub
        simpa [undo, hkey, he] using ih above hmarks' hsub'
      · have hsub' : ((e :: above).map fun e ↦ key e.2).Sublist ks := by
          cases hsub with
          | cons _ hsub => exact hsub
          | cons_cons _ hsub => exact absurd rfl hkey
        simpa [undo, hkey] using ih (e :: above) hmarks hsub'

/-! ### Bounded stacks -/

/-- `t` is `s` cut off from below, with at least the newest `n` entries left. -/
def Keeps {α : Type*} (n : ℕ) (t s : List α) : Prop := t <+: s ∧ min n s.length ≤ t.length

theorem Keeps.mono {α : Type*} {m : ℕ} {t s : List α} (hk : Keeps n t s) (hmn : m ≤ n) : Keeps m t s :=
  ⟨hk.1, (min_le_min_right _ hmn).trans hk.2⟩

theorem Keeps.head?_eq {α : Type*} {t s : List α} (hk : Keeps n t s) (hn : 1 ≤ n) : t.head? = s.head? := by
  obtain ⟨⟨r, rfl⟩, hlen⟩ := hk
  cases t with
  | nil =>
    have hr : r = [] := by
      rw [← length_eq_zero_iff]
      simp only [nil_append, length_nil] at hlen
      omega
    rw [hr]
    rfl
  | cons e t => rfl

theorem pushes_cons (k : Option κ) (d : δ) (ds : List δ) : pushes key k (d :: ds) =
      (if k = none ∨ k = some (key d) then 0 else 1) + pushes key (some (key d)) ds := by
  cases k with
  | none => simp [pushes, changes]
  | some k =>
    by_cases hk : k = key d
    · simp [pushes, changes, hk]
    · simp [pushes, changes, hk, Nat.add_comm]

@[simp] theorem topKey_put (s : List (ℤ × δ)) (d : δ) : topKey key (put key h s d) = some (key d) := by
  cases s with
  | nil => rfl
  | cons e t =>
    by_cases hkey : key e.2 = key d <;> simp [put, topKey, hkey]

theorem Keeps.put {cap : ℕ} {t : List (ℤ × δ)} (hk : Keeps n t s) (hn : 1 ≤ n) (hcap : n ≤ cap) (d : δ) :
    Keeps (min cap (n + if topKey key s = none ∨ topKey key s = some (key d) then 0 else 1))
      ((UndoStack.put key h t d).take cap) (UndoStack.put key h s d) := by
  have hhead := hk.head?_eq hn
  obtain ⟨⟨r, rfl⟩, hlen⟩ := hk
  cases t with
  | nil =>
    obtain rfl : r = [] := by cases r <;> simp_all
    refine ⟨ take_prefix _ _, ?_⟩
    simp [UndoStack.put]
  | cons e t =>
    rw [length_cons, cons_append, length_cons] at hlen
    by_cases hkey : key e.2 = key d
    · simp only [UndoStack.put, cons_append, hkey, if_true]
      refine ⟨( take_prefix _ _).trans (by simp), ?_⟩
      simp only [topKey, head?_cons, Option.map_some, hkey, or_true, if_true, length_take, length_cons]
      omega
    · simp only [UndoStack.put, cons_append, hkey, if_false]
      refine ⟨( take_prefix _ _).trans (by simp), ?_⟩
      simp only [topKey, head?_cons, Option.map_some, Option.some.injEq, hkey, reduceCtorEq,
        or_self, if_false, length_take, length_cons]
      omega

/-- **A batch of puts on a bounded stack**: what was kept is kept, and so is what was pushed, as far
as there is room. -/
theorem Keeps.foldl_put {cap : ℕ} (ds : List δ) : ∀ {n : ℕ} {t s : List (ℤ × δ)}, Keeps n t s →
    1 ≤ n → n ≤ cap →
    Keeps (min cap (n + pushes key (topKey key s) ds))
      (ds.foldl (fun t d ↦ (UndoStack.put key h t d).take cap) t)
      (ds.foldl (UndoStack.put key h) s) := by
  induction ds with
  | nil =>
    intro n t s hk _ _
    exact hk.mono (by simp [pushes, changes])
  | cons d ds ih =>
    intro n t s hk hn hcap
    have hstep : Keeps _ ((UndoStack.put key h t d).take cap) (UndoStack.put key h s d) :=
      hk.put hn hcap d
    have hnext := ih hstep (by omega) (by omega)
    rw [topKey_put] at hnext
    refine hnext.mono ?_
    rw [pushes_cons]
    omega

/-- **A batch is undone on a bounded stack**, if the stack still knows what the batch pushed. -/
theorem Keeps.foldl_undo {t : List (ℤ × δ)} {ds : List δ} {ks : List κ} (hs : Older h s)
    (hbase : base key s ds = s) (hks : (changes key (topKey key s) ds).reverse.Sublist ks)
    (hn : 1 ≤ n)
    (hk : Keeps (n + pushes key (topKey key s) ds) t (ds.foldl (UndoStack.put key h) s)) :
    Keeps n (ks.foldl (undo key h) t) s := by
  obtain ⟨above, hfold, hkeys, hmarks⟩ := exists_above key hs ds
  rw [hfold, hbase] at hk
  have hlength : above.length = (changes key (topKey key s) ds).length := by
    simpa using congrArg List.length hkeys
  obtain ⟨hinit, hlen⟩ := hk
  rw [length_append] at hlen
  have habove : above.length ≤ t.length := by
    cases s with
    | nil =>
      simp only [topKey, head?_nil, Option.map_none, pushes, Option.isNone_none, if_true,
        length_nil] at hlen hlength
      omega
    | cons e s =>
      simp only [topKey, head?_cons, Option.map_some, pushes, Option.isNone_some] at hlen hlength
      simp at hlen
      omega
  -- the bounded stack is the batch's entries on a bounded copy of what was there before
  obtain ⟨t₀, rfl⟩ := prefix_of_prefix_length_le (prefix_append _ _) hinit habove
  have ht₀ : t₀ <+: s := (prefix_append_right_inj above).mp hinit
  have hold : Older h t₀ := by
    intro e he
    obtain ⟨r, rfl⟩ := ht₀
    cases t₀ with
    | nil => simp at he
    | cons e' t => exact hs e he
  rw [foldl_undo_above hold ks above hmarks (hkeys ▸ hks)]
  refine ⟨ht₀, ?_⟩
  rw [length_append] at hlen
  cases s with
  | nil => simp
  | cons e s =>
    simp only [topKey, head?_cons, Option.map_some, pushes, Option.isNone_some] at hlen hlength
    simp at hlen ⊢
    omega

end UndoStack
