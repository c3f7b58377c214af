import Mathlib.Data.List.Infix

/-! Mounts: file systems attached to the paths of a process. A path is a list of names without
links, and leads into the topmost of the mounts that cover it. -/
namespace P9cpu.Core

variable {F N : Type}

/-- A file system and a path in it. -/
structure Location (F N : Type) where
  fs : F
  path : List N

namespace Location

/-- What is at `rest` from the place. -/
def below (p : Location F N) (rest : List N) : Location F N := { p with path := p.path ++ rest }

@[simp] theorem below_nil (p : Location F N) : p.below [] = p := by
  unfold below
  rw [List.append_nil]

@[simp] theorem below_mk (fs : F) (path rest : List N) :
    (Location.mk fs path).below rest = ⟨fs, path ++ rest⟩ := rfl

end Location

/-- Where the paths of a process lead. -/
abbrev View (F N : Type) := List N → Location F N

/-- What is mounted at `target` is met on the way along `path`. A way starts in the root directory
that the process has got, so a mount at the root is not met. -/
def Covers (target path : List N) : Prop := target ≠ [] ∧ target <+: path

instance [DecidableEq N] (target path : List N) : Decidable (Covers target path) :=
  inferInstanceAs (Decidable (_ ∧ _))

inductive Attach (F N : Type)
  | mount (fs : F) (target : List N)
  /-- what is at `source`, without the mounts below it -/
  | bind (source target : List N)

namespace Attach

def target : Attach F N → List N
  | .mount _ target | .bind _ target => target

/-- What the target leads to. -/
def place (v : View F N) : Attach F N → Location F N
  | .mount fs _ => ⟨fs, []⟩
  | .bind source _ => v source

end Attach

namespace View
variable [DecidableEq N]

def attach (v : View F N) (a : Attach F N) : View F N := fun path =>
  if Covers a.target path then (a.place v).below (path.drop a.target.length) else v path

/-- The view after the mounts, the first one first. -/
def attachAll (v : View F N) (as : List (Attach F N)) : View F N := as.foldl attach v

variable {v : View F N} {as bs : List (Attach F N)} {a : Attach F N} {path : List N}

theorem attach_of_covers (h : Covers a.target path) :
    v.attach a path = (a.place v).below (path.drop a.target.length) := if_pos h

theorem attach_of_not_covers (h : ¬ Covers a.target path) : v.attach a path = v path := if_neg h

theorem attach_bind (v : View F N) (source target path : List N) :
    v.attach (.bind source target) path =
      if Covers target path then (v source).below (path.drop target.length) else v path := rfl

theorem attach_mount (v : View F N) (fs : F) (target path : List N) :
    v.attach (.mount fs target) path =
      if Covers target path then ⟨fs, path.drop target.length⟩ else v path := rfl

@[simp] theorem attachAll_nil (v : View F N) : v.attachAll [] = v := rfl

@[simp] theorem attachAll_cons (v : View F N) (a : Attach F N) (as : List (Attach F N)) :
    v.attachAll (a :: as) = (v.attach a).attachAll as := rfl

theorem attachAll_append (v : View F N) (as bs : List (Attach F N)) :
    v.attachAll (as ++ bs) = (v.attachAll as).attachAll bs := List.foldl_append

/-- What no mount covers is as before. -/
theorem attachAll_of_uncovered (h : ∀ a ∈ as, ¬ Covers a.target path) :
    v.attachAll as path = v path := by
  induction as generalizing v with
  | nil => rfl
  | cons a as ih =>
    rw [attachAll_cons, ih fun b hb => h b (List.mem_cons_of_mem _ hb)]
    exact attach_of_not_covers (h a List.mem_cons_self)

/-- The last mount that covers a path decides where it leads. -/
theorem attachAll_of_last (ha : Covers a.target path) (hbs : ∀ b ∈ bs, ¬ Covers b.target path) :
    v.attachAll (as ++ a :: bs) path =
      (a.place (v.attachAll as)).below (path.drop a.target.length) := by
  rw [attachAll_append, attachAll_cons, attachAll_of_uncovered hbs, attach_of_covers ha]

end View

/-! Binds whose sources the binds before them leave alone. -/

section
variable {B : Type} (source target : B → List N)

/-- No bind covers the source of a later one. -/
def Apart (bs : List B) : Prop := bs.Pairwise fun b later => ¬ Covers (target b) (source later)

variable [DecidableEq N] {source target}

/-- The last of the binds whose target is met on the way along `path`. -/
def lastCover (target : B → List N) (bs : List B) (path : List N) : Option B :=
  bs.reverse.find? fun b => Covers (target b) path

theorem lastCover_concat (bs : List B) (b : B) (path : List N) :
    lastCover target (bs ++ [b]) path =
      if Covers (target b) path then some b else lastCover target bs path := by
  unfold lastCover
  rw [List.reverse_append, List.reverse_singleton, List.singleton_append, List.find?_cons]
  split_ifs with hb
  · simp [hb]
  · simp [hb]

/-- Such binds show their sources as they were before all of them. -/
theorem attachAll_binds {v : View F N} {bs : List B} (h : Apart source target bs)
    (path : List N) :
    v.attachAll (bs.map fun b => .bind (source b) (target b)) path =
      match lastCover target bs path with
      | some b => (v (source b)).below (path.drop (target b).length)
      | none => v path := by
  induction bs using List.reverseRecOn generalizing path with
  | nil => rfl
  | append_singleton bs b ih =>
    obtain ⟨hbs, -, hb⟩ := List.pairwise_append.mp h
    rw [List.map_append, View.attachAll_append, lastCover_concat, List.map_singleton,
      View.attachAll_cons, View.attachAll_nil, View.attach_bind]
    split_ifs with hcovers
    · have hsource : v.attachAll (bs.map fun b => .bind (source b) (target b)) (source b) =
          v (source b) := by
        apply View.attachAll_of_uncovered
        intro a ha
        obtain ⟨b', hb', rfl⟩ := List.mem_map.mp ha
        exact hb b' hb' b (List.mem_singleton_self b)
      rw [hsource]
    · exact ih hbs path

end

end P9cpu.Core
