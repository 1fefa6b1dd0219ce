import Mathlib

/-!
# Stores of files

A store maps keys (paths) to contents. The operations are those of a program
that opens a file for writing, truncating it, and then writes to it, either at
its end (`append`) or, as a buffered stream does when it is closed, from its
start (`flush`).

* `dump`: several files are opened together, and then written and closed;
* `dumps_of_mem`: if no key is dumped twice in a sequence of dumps, every file
  finally holds exactly what was written to it;
* `dumps_of_notMem`: the other files are unchanged.
-/

/-- The contents stored under some of the keys. -/
abbrev Store (κ β : Type*) := κ → Option (List β)

namespace Store

variable {κ β : Type*} [DecidableEq κ]

/-- Opening a file for writing: it is created, or emptied. -/
def create (k : κ) (st : Store κ β) : Store κ β := Function.update st k (some [])

/-- Writing `d` at the end of a file. -/
def append (k : κ) (d : List β) (st : Store κ β) : Store κ β :=
  Function.update st k (some ((st k).getD [] ++ d))

/-- Writing `d` from the start of a file, over what it holds. -/
def flush (k : κ) (d : List β) (st : Store κ β) : Store κ β :=
  Function.update st k (some (d ++ ((st k).getD []).drop d.length))

@[simp] theorem create_self (k : κ) (st : Store κ β) : create k st k = some [] := by
  simp [create]

@[simp] theorem create_of_ne {k k' : κ} (h : k' ≠ k) (st : Store κ β) :
    create k st k' = st k' := by simp [create, h]

@[simp] theorem append_self (k : κ) (d : List β) (st : Store κ β) :
    append k d st k = some ((st k).getD [] ++ d) := by simp [append]

@[simp] theorem append_of_ne {k k' : κ} (h : k' ≠ k) (d : List β) (st : Store κ β) :
    append k d st k' = st k' := by simp [append, h]

@[simp] theorem flush_self (k : κ) (d : List β) (st : Store κ β) :
    flush k d st k = some (d ++ ((st k).getD []).drop d.length) := by simp [flush]

@[simp] theorem flush_of_ne {k k' : κ} (h : k' ≠ k) (d : List β) (st : Store κ β) :
    flush k d st k' = st k' := by simp [flush, h]

theorem create_eq_update (k : κ) (st : Store κ β) :
    create k st = Function.update st k (some []) := rfl

theorem append_update (k : κ) (b d : List β) (st : Store κ β) :
    append k d (Function.update st k (some b)) = Function.update st k (some (b ++ d)) := by
  simp [append]

/-! ## Dumps -/

/-- Opening the files `fs` for writing, all of them, then writing and closing each. -/
def dump (fs : List (κ × List β)) (st : Store κ β) : Store κ β :=
  fs.foldl (fun st f => flush f.1 f.2 st) (fs.foldl (fun st f => create f.1 st) st)

theorem foldl_create_of_notMem {fs : List (κ × List β)} {k : κ} (hk : k ∉ fs.map Prod.fst)
    (st : Store κ β) : fs.foldl (fun st f => create f.1 st) st k = st k := by
  induction fs generalizing st with
  | nil => rfl
  | cons f fs ih =>
    simp only [List.map_cons, List.mem_cons, not_or] at hk
    rw [List.foldl_cons, ih hk.2, create_of_ne hk.1]

theorem foldl_create_of_mem {fs : List (κ × List β)} {k : κ} (hk : k ∈ fs.map Prod.fst)
    (st : Store κ β) : fs.foldl (fun st f => create f.1 st) st k = some [] := by
  induction fs generalizing st with
  | nil => exact absurd hk List.not_mem_nil
  | cons f fs ih =>
    by_cases hfs : k ∈ fs.map Prod.fst
    · exact ih hfs _
    · rw [List.foldl_cons, foldl_create_of_notMem hfs]
      rcases List.mem_cons.1 hk with rfl | hk'
      · exact create_self _ _
      · exact absurd hk' hfs

theorem foldl_flush_of_notMem {fs : List (κ × List β)} {k : κ} (hk : k ∉ fs.map Prod.fst)
    (st : Store κ β) : fs.foldl (fun st f => flush f.1 f.2 st) st k = st k := by
  induction fs generalizing st with
  | nil => rfl
  | cons f fs ih =>
    simp only [List.map_cons, List.mem_cons, not_or] at hk
    rw [List.foldl_cons, ih hk.2, flush_of_ne hk.1]

/-- A dump leaves the other files alone. -/
theorem dump_of_notMem {fs : List (κ × List β)} {k : κ} (hk : k ∉ fs.map Prod.fst)
    (st : Store κ β) : dump fs st k = st k := by
  rw [dump, foldl_flush_of_notMem hk, foldl_create_of_notMem hk]

/-- A dump to distinct files gives each its contents. -/
theorem dump_of_mem {fs : List (κ × List β)} (hfs : (fs.map Prod.fst).Nodup) {f : κ × List β}
    (hf : f ∈ fs) (st : Store κ β) : dump fs st f.1 = some f.2 := by
  have flush_of_mem (st : Store κ β) (hst : ∀ k ∈ fs.map Prod.fst, st k = some []) :
      fs.foldl (fun st f => flush f.1 f.2 st) st f.1 = some f.2 := by
    induction fs generalizing st with
    | nil => exact absurd hf List.not_mem_nil
    | cons g fs ih =>
      rw [List.map_cons, List.nodup_cons] at hfs
      rw [List.foldl_cons]
      rcases List.mem_cons.1 hf with rfl | hf'
      · rw [foldl_flush_of_notMem hfs.1, flush_self, hst _ List.mem_cons_self]
        simp
      · refine ih hfs.2 hf' _ fun k hk => ?_
        have hne : k ≠ g.1 := by
          rintro rfl
          exact hfs.1 hk
        rw [flush_of_ne hne, hst k (List.mem_cons_of_mem _ hk)]
  exact flush_of_mem _ fun k hk => foldl_create_of_mem hk st

/-- A sequence of dumps. -/
def dumps (jobs : List (List (κ × List β))) (st : Store κ β) : Store κ β :=
  jobs.foldl (fun st fs => dump fs st) st

theorem dumps_cons (fs : List (κ × List β)) (jobs : List (List (κ × List β))) (st : Store κ β) :
    dumps (fs :: jobs) st = dumps jobs (dump fs st) := rfl

theorem dumps_append (jobs jobs' : List (List (κ × List β))) (st : Store κ β) :
    dumps (jobs ++ jobs') st = dumps jobs' (dumps jobs st) := List.foldl_append

/-- A sequence of dumps leaves the other files alone. -/
theorem dumps_of_notMem {jobs : List (List (κ × List β))} {k : κ}
    (hk : k ∉ jobs.flatten.map Prod.fst) (st : Store κ β) : dumps jobs st k = st k := by
  induction jobs generalizing st with
  | nil => rfl
  | cons fs jobs ih =>
    simp only [List.flatten_cons, List.map_append, List.mem_append, not_or] at hk
    rw [dumps_cons, ih hk.2, dump_of_notMem hk.1]

/-- If no file is dumped twice, every file finally holds what was dumped to it. -/
theorem dumps_of_mem {jobs : List (List (κ × List β))}
    (hjobs : (jobs.flatten.map Prod.fst).Nodup) {f : κ × List β} (hf : f ∈ jobs.flatten)
    (st : Store κ β) : dumps jobs st f.1 = some f.2 := by
  induction jobs generalizing st with
  | nil => exact absurd hf (by simp)
  | cons fs jobs ih =>
    rw [List.flatten_cons, List.map_append, List.nodup_append] at hjobs
    obtain ⟨hfs, hrest, hdisj⟩ := hjobs
    rw [dumps_cons]
    rcases List.mem_append.1 hf with hf' | hf'
    · -- No later dump touches this file.
      have hnot : f.1 ∉ jobs.flatten.map Prod.fst := fun h =>
        hdisj f.1 (List.mem_map_of_mem hf') f.1 h rfl
      rw [dumps_of_notMem hnot, dump_of_mem hfs hf']
    · exact ih hrest hf' _

end Store
