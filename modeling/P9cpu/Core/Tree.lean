import Mathlib.Data.List.DropRight
import Mathlib.Data.Nat.Notation
import Mathlib.Logic.Function.Basic

/-! Trees of files with symbolic links: where a list of names leads, which entries of directories
it goes through, and what keeps it going there. -/
namespace P9cpu.Core

abbrev Name := List UInt8

/-- `.` -/
def SELF : Name := [0x2e]
/-- `..`, which every directory has as an entry -/
def UP : Name := [0x2e, 0x2e]

inductive Kind
  | file
  | dir
  | link (absolute : Bool) (target : List Name)
deriving DecidableEq

structure Inode (A : Type) where
  kind : Kind
  attr : A

/-- Why a path or a change of the tree is refused. -/
inductive Fault
  | noEntry | notDir | isDir | loop | exist | notEmpty | busy | invalid
deriving DecidableEq

/-- Files by their numbers, and the entries of the directories. -/
structure Tree (A : Type) where
  inode : ℕ → Option (Inode A)
  names : ℕ → List (Name × ℕ)
  root : ℕ
  /-- the number of the next new file -/
  next : ℕ
  unused : ∀ i, next ≤ i → inode i = none ∧ names i = []

/-- The entries that a path went through. -/
abbrev Trail := List (ℕ × Name)

/-- Where a path leads. -/
inductive Place
  | found (i : ℕ)
  /-- the directory is there and does not have the last name -/
  | missing (dir : ℕ) (name : Name)
deriving DecidableEq

namespace Tree

variable {A : Type}

def entry (t : Tree A) (dir : ℕ) (name : Name) : Option ℕ := (t.names dir).lookup name

def isDir (t : Tree A) (i : ℕ) : Bool :=
  match t.inode i with
  | some ⟨.dir, _⟩ => true
  | _ => false

def through (e : ℕ × Name) (r : Except Fault (Trail × Place)) : Except Fault (Trail × Place) :=
  r.map fun x => (e :: x.1, x.2)

/-- Takes one name after the other, and links by `follow`; a link at the end only if `last`. -/
def walk (t : Tree A) (follow : ℕ → List Name → Except Fault (Trail × Place)) (last : Bool) :
    ℕ → List Name → Except Fault (Trail × Place)
  | dir, [] => .ok ([], .found dir)
  | dir, name :: names =>
    if t.isDir dir = false then .error .notDir
    else if name = [] ∨ name = SELF then t.walk follow last dir names
    else
      match t.entry dir name with
      | none => if names = [] then .ok ([], .missing dir name) else .error .noEntry
      | some i =>
        match t.inode i with
        | none => .error .noEntry
        | some ⟨.link absolute target, _⟩ =>
          if names = [] ∧ last = false then .ok ([(dir, name)], .found i)
          else through (dir, name) (follow (if absolute then t.root else dir) (target ++ names))
        | some _ => through (dir, name) (t.walk follow last i names)

/-- With at most `n` links on the way. -/
def resolve (t : Tree A) (last : Bool) : ℕ → ℕ → List Name → Except Fault (Trail × Place)
  | 0 => t.walk (fun _ _ => .error .loop) last
  | n + 1 => t.walk (t.resolve last n) last

def MAXSYMLINKS : ℕ := 40

def lookup (t : Tree A) (last : Bool) (dir : ℕ) (names : List Name) :
    Except Fault (Trail × Place) := t.resolve last MAXSYMLINKS dir names

/-- The entry for which a path stands, and the file that it has. -/
structure Slot where
  dir : ℕ
  name : Name
  node : Option ℕ
  /-- the path had separators at its end -/
  slash : Bool

def slot (t : Tree A) (dir : ℕ) (names : List Name) : Except Fault Slot :=
  let core := names.rdropWhile (· = [])
  match core.getLast? with
  | none => .error .busy
  | some name =>
    if name = SELF ∨ name = UP then .error .busy
    else
      match t.lookup false dir core with
      | .error e => .error e
      | .ok (_, .missing dir name) => .ok ⟨dir, name, none, core.length < names.length⟩
      | .ok (trail, .found i) =>
        match trail.getLast? with
        | none => .error .busy
        | some (dir, name) => .ok ⟨dir, name, some i, core.length < names.length⟩

/-! Changes. -/

/-- A new file, which no directory has. -/
def create (t : Tree A) (x : Inode A) : Tree A where
  inode := Function.update t.inode t.next (some x)
  names := t.names
  root := t.root
  next := t.next + 1
  unused i hi := by
    have hne : i ≠ t.next := by omega
    rw [Function.update_of_ne hne]
    exact t.unused i (by omega)

theorem lt_of_isDir {t : Tree A} {i : ℕ} (h : t.isDir i = true) : i < t.next := by
  by_contra hle
  simp [isDir, (t.unused i (not_lt.mp hle)).1] at h

/-- `name` in the directory becomes `i`. -/
def set (t : Tree A) (dir : ℕ) (name : Name) (i : ℕ) (h : t.isDir dir = true) : Tree A where
  inode := t.inode
  names := Function.update t.names dir ((name, i) :: (t.names dir).filter (·.1 ≠ name))
  root := t.root
  next := t.next
  unused j hj := by
    have hne : j ≠ dir := ne_of_gt (lt_of_lt_of_le (lt_of_isDir h) hj)
    rw [Function.update_of_ne hne]
    exact t.unused j hj

def erase (t : Tree A) (dir : ℕ) (name : Name) : Tree A where
  inode := t.inode
  names := Function.update t.names dir ((t.names dir).filter (·.1 ≠ name))
  root := t.root
  next := t.next
  unused j hj := by
    obtain ⟨hinode, hnames⟩ := t.unused j hj
    refine ⟨hinode, ?_⟩
    by_cases hjd : j = dir
    · subst hjd
      simp [hnames]
    · rw [Function.update_of_ne hjd, hnames]

theorem isDir_create {t : Tree A} {dir : ℕ} (h : t.isDir dir = true) (x : Inode A) :
    (t.create x).isDir dir = true := by
  have hne : dir ≠ t.next := ne_of_lt (lt_of_isDir h)
  have hinode : (t.create x).inode dir = t.inode dir := Function.update_of_ne hne ..
  unfold isDir at h ⊢
  rwa [hinode]

theorem isDir_create_self (t : Tree A) (attr : A) :
    (t.create ⟨.dir, attr⟩).isDir t.next = true := by
  simp [isDir, create]

/-- A new file in a directory. -/
def addFile (t : Tree A) (dir : ℕ) (name : Name) (attr : A) (h : t.isDir dir = true) : Tree A :=
  (t.create ⟨.file, attr⟩).set dir name t.next (isDir_create h _)

/-- A new directory in a directory. -/
def addDir (t : Tree A) (dir : ℕ) (name : Name) (attr : A) (h : t.isDir dir = true) : Tree A :=
  ((t.create ⟨.dir, attr⟩).set t.next UP dir (isDir_create_self t attr)).set dir name t.next
    (isDir_create h _)

def isEmpty (t : Tree A) (i : ℕ) : Bool := (t.names i).all (·.1 = UP)

/-- `i` is the directory or above it, as far as `n` steps go. -/
def inside (t : Tree A) (i : ℕ) : ℕ → ℕ → Bool
  | 0, _ => false
  | n + 1, dir => dir = i ||
    match t.entry dir UP with
    | some parent => t.inside i n parent
    | none => false

/-- `rename` of what is at `src`. -/
def move (t : Tree A) (src dst : Slot) : Except Fault (Tree A) :=
  match src.node with
  | none => .error .noEntry
  | some i =>
    let isDir := t.isDir i
    if (src.slash || dst.slash) && !isDir then .error .notDir
    else if isDir && t.inside i t.next dst.dir then .error .invalid
    else if dst.node = some i then .ok t
    else if isDir && dst.node.any (!t.isDir ·) then .error .notDir
    else if !isDir && dst.node.any (t.isDir ·) then .error .isDir
    else if dst.node.any (!t.isEmpty ·) then .error .notEmpty
    else
      let t := t.erase src.dir src.name
      if hdst : t.isDir dst.dir = true then
        let t := t.set dst.dir dst.name i hdst
        if hi : t.isDir i = true then .ok (t.set i UP dst.dir hi) else .ok t
      else .error .notDir

def removeDir (t : Tree A) (slot : Slot) : Except Fault (Tree A) :=
  match slot.node with
  | none => .error .noEntry
  | some i =>
    if t.isDir i = false then .error .notDir
    else if t.isEmpty i then .ok (t.erase slot.dir slot.name)
    else .error .notEmpty

def removeFile (t : Tree A) (slot : Slot) : Except Fault (Tree A) :=
  match slot.node with
  | none => .error .noEntry
  | some i =>
    if t.isDir i = true then .error .isDir
    else if slot.slash then .error .notDir
    else .ok (t.erase slot.dir slot.name)

/-! What a change keeps. -/

/-- All files are still what they were. -/
structure Keeps (t u : Tree A) : Prop where
  inode : ∀ i x, t.inode i = some x → u.inode i = some x
  root : u.root = t.root

/-- Entries are added only. -/
structure Extends (t u : Tree A) : Prop extends Keeps t u where
  entry : ∀ dir name i, t.entry dir name = some i → u.entry dir name = some i

/-- The entries of a trail are still what they were. -/
def KeepsOn (t u : Tree A) (trail : Trail) : Prop :=
  ∀ e ∈ trail, ∀ i, t.entry e.1 e.2 = some i → u.entry e.1 e.2 = some i

section
variable {t u v : Tree A} {dir i : ℕ} {name : Name}

theorem Keeps.refl (t : Tree A) : t.Keeps t := ⟨fun _ _ h => h, rfl⟩

theorem Keeps.trans (h : t.Keeps u) (h' : u.Keeps v) : t.Keeps v :=
  ⟨fun i x hx => h'.inode i x (h.inode i x hx), h'.root.trans h.root⟩

theorem Extends.refl (t : Tree A) : t.Extends t := ⟨.refl t, fun _ _ _ h => h⟩

theorem Extends.keepsOn (h : t.Extends u) (trail : Trail) : t.KeepsOn u trail :=
  fun e _ => h.entry e.1 e.2

theorem Extends.trans (h : t.Extends u) (h' : u.Extends v) : t.Extends v :=
  ⟨h.toKeeps.trans h'.toKeeps, fun d n i hi => h'.entry d n i (h.entry d n i hi)⟩

theorem Keeps.isDir (h : t.Keeps u) (hdir : t.isDir i = true) : u.isDir i = true := by
  unfold Tree.isDir at hdir ⊢
  cases hi : t.inode i with
  | none => simp [hi] at hdir
  | some x =>
    rw [h.inode i x hi]
    rwa [hi] at hdir

theorem keeps_create (t : Tree A) (x : Inode A) : t.Keeps (t.create x) := by
  refine ⟨fun i y hy => ?_, rfl⟩
  have hne : i ≠ t.next := by
    rintro rfl
    simp [(t.unused t.next le_rfl).1] at hy
  exact (Function.update_of_ne hne ..).trans hy

theorem extends_create (t : Tree A) (x : Inode A) : t.Extends (t.create x) :=
  ⟨keeps_create t x, fun _ _ _ h => h⟩

theorem keeps_set (t : Tree A) (dir : ℕ) (name : Name) (i : ℕ) (h : t.isDir dir = true) :
    t.Keeps (t.set dir name i h) := ⟨fun _ _ hx => hx, rfl⟩

theorem keeps_erase (t : Tree A) (dir : ℕ) (name : Name) : t.Keeps (t.erase dir name) :=
  ⟨fun _ _ hx => hx, rfl⟩

theorem lookup_filter {n : Name} (hn : n ≠ name) (es : List (Name × ℕ)) :
    (es.filter (·.1 ≠ name)).lookup n = es.lookup n := by
  induction es with
  | nil => rfl
  | cons e es ih =>
    by_cases he : e.1 = name
    · have hne : ¬ n = e.1 := fun h => hn (h.trans he)
      rw [List.filter_cons_of_neg (by simpa using he), ih]
      rw [List.lookup_cons, beq_false_of_ne hne]
    · rw [List.filter_cons_of_pos (by simpa using he), List.lookup_cons, List.lookup_cons, ih]

theorem entry_set (t : Tree A) (h : t.isDir dir = true) (d : ℕ) (n : Name) :
    (t.set dir name i h).entry d n = if d = dir ∧ n = name then some i else t.entry d n := by
  unfold entry set
  dsimp only
  by_cases hd : d = dir
  · subst hd
    rw [Function.update_self]
    by_cases hn : n = name
    · simp [hn]
    · rw [if_neg fun h => hn h.2]
      rw [List.lookup_cons, beq_false_of_ne hn]
      exact lookup_filter hn _
  · rw [Function.update_of_ne hd, if_neg fun h => hd h.1]

/-- A name that the directory does not have is added. -/
theorem extends_set (h : t.isDir dir = true) (hnone : t.entry dir name = none) (i : ℕ) :
    t.Extends (t.set dir name i h) := by
  refine ⟨keeps_set t dir name i h, fun d n j hj => ?_⟩
  rw [entry_set, if_neg, hj]
  rintro ⟨rfl, rfl⟩
  simp [hnone] at hj

theorem extends_addFile (h : t.isDir dir = true) (hnone : t.entry dir name = none) (attr : A) :
    t.Extends (t.addFile dir name attr h) := by
  have hnone' : (t.create ⟨.file, attr⟩).entry dir name = none := hnone
  exact (extends_create t _).trans (extends_set (isDir_create h _) hnone' t.next)

theorem extends_addDir (h : t.isDir dir = true) (hnone : t.entry dir name = none) (attr : A) :
    t.Extends (t.addDir dir name attr h) := by
  have hnew : ∀ n, (t.create ⟨.dir, attr⟩).entry t.next n = none := by
    intro n
    have hnames : (t.create ⟨.dir, attr⟩).names t.next = [] := (t.unused t.next le_rfl).2
    simp [entry, hnames]
  have hne : dir ≠ t.next := ne_of_lt (lt_of_isDir h)
  have hup := extends_set (isDir_create_self t attr) (hnew UP) dir
  refine (extends_create t _).trans (hup.trans (extends_set _ ?_ _))
  rw [entry_set, if_neg fun hd => hne hd.1]
  exact hnone

theorem keeps_move {src dst : Slot} (h : t.move src dst = .ok u) : t.Keeps u := by
  unfold move at h
  split at h
  · cases h
  · dsimp only at h
    split_ifs at h
    · cases h
      exact .refl t
    · cases h
      exact (keeps_erase t _ _).trans ((keeps_set _ _ _ _ _).trans (keeps_set _ _ _ _ _))
    · cases h
      exact (keeps_erase t _ _).trans (keeps_set _ _ _ _ _)

theorem keeps_removeDir {slot : Slot} (h : t.removeDir slot = .ok u) : t.Keeps u := by
  unfold removeDir at h
  split at h
  · cases h
  · split_ifs at h
    cases h
    exact keeps_erase t _ _

theorem keeps_removeFile {slot : Slot} (h : t.removeFile slot = .ok u) : t.Keeps u := by
  unfold removeFile at h
  split at h
  · cases h
  · split_ifs at h
    cases h
    exact keeps_erase t _ _

end

/-! Where paths lead. -/

section
variable {t u : Tree A} {last : Bool} {n dir i : ℕ} {names : List Name} {trail : Trail}
  {follow follow' : ℕ → List Name → Except Fault (Trail × Place)}

theorem through_eq_ok {e : ℕ × Name} {r : Except Fault (Trail × Place)} {place : Place}
    (h : through e r = .ok (trail, place)) :
    ∃ rest, r = .ok (rest, place) ∧ trail = e :: rest := by
  cases r with
  | error fault => cases h
  | ok x =>
    cases h
    exact ⟨x.1, rfl, rfl⟩

theorem through_of_ok {e : ℕ × Name} {r : Except Fault (Trail × Place)} {rest : Trail}
    {place : Place} (h : r = .ok (rest, place)) : through e r = .ok (e :: rest, place) := by
  rw [h]
  rfl

/-- A path leads to the same file as long as the entries on its way are kept. -/
theorem walk_congr (h : t.Keeps u)
    (hfollow : ∀ dir names trail i, follow dir names = .ok (trail, .found i) → t.KeepsOn u trail →
      follow' dir names = .ok (trail, .found i))
    (hwalk : t.walk follow last dir names = .ok (trail, .found i)) (hkeeps : t.KeepsOn u trail) :
    u.walk follow' last dir names = .ok (trail, .found i) := by
  induction names generalizing dir trail with
  | nil => exact hwalk
  | cons name names ih =>
    unfold walk at hwalk ⊢
    by_cases hdir : t.isDir dir = false
    · rw [if_pos hdir] at hwalk
      cases hwalk
    · have hdir' : ¬ u.isDir dir = false := by
        rw [h.isDir (by simpa using hdir)]
        simp
      rw [if_neg hdir] at hwalk
      rw [if_neg hdir']
      by_cases hskip : name = [] ∨ name = SELF
      · rw [if_pos hskip] at hwalk ⊢
        exact ih hwalk hkeeps
      · rw [if_neg hskip] at hwalk ⊢
        have hstep : ∀ {rest : Trail} {j : ℕ}, trail = (dir, name) :: rest →
            t.entry dir name = some j → u.entry dir name = some j ∧ t.KeepsOn u rest := by
          rintro rest j rfl hj
          exact ⟨hkeeps _ List.mem_cons_self j hj, fun e he => hkeeps e (List.mem_cons_of_mem _ he)⟩
        cases hentry : t.entry dir name with
        | none =>
          simp only [hentry] at hwalk
          split_ifs at hwalk
          cases hwalk
        | some j =>
          simp only [hentry] at hwalk
          cases hinode : t.inode j with
          | none => simp [hinode] at hwalk
          | some x =>
            have hinode' := h.inode j x hinode
            obtain ⟨kind, attr⟩ := x
            cases kind with
            | link absolute target =>
              simp only [hinode] at hwalk
              by_cases hlast : names = [] ∧ last = false
              · rw [if_pos hlast] at hwalk
                cases hwalk
                simp only [(hstep rfl hentry).1, hinode', if_pos hlast]
              · rw [if_neg hlast] at hwalk
                obtain ⟨rest, hrest, rfl⟩ := through_eq_ok hwalk
                obtain ⟨hentry', hkeeps'⟩ := hstep rfl hentry
                simp only [hentry', hinode', if_neg hlast, h.root]
                exact through_of_ok (hfollow _ _ _ _ hrest hkeeps')
            | file | dir =>
              simp only [hinode] at hwalk
              obtain ⟨rest, hrest, rfl⟩ := through_eq_ok hwalk
              obtain ⟨hentry', hkeeps'⟩ := hstep rfl hentry
              simp only [hentry', hinode']
              exact through_of_ok (ih hrest hkeeps')

theorem resolve_congr (h : t.Keeps u)
    (hresolve : t.resolve last n dir names = .ok (trail, .found i)) (hkeeps : t.KeepsOn u trail) :
    u.resolve last n dir names = .ok (trail, .found i) := by
  induction n generalizing dir names trail i with
  | zero => exact walk_congr h (fun _ _ _ _ hloop => by cases hloop) hresolve hkeeps
  | succ n ih => exact walk_congr h (fun _ _ _ _ hr => ih hr) hresolve hkeeps

/-- The directory does not have the name that is missing. -/
theorem walk_missing {d : ℕ} {name : Name}
    (hfollow : ∀ d names trail, follow d names = .ok (trail, .missing dir name) →
      t.entry dir name = none)
    (hwalk : t.walk follow last d names = .ok (trail, .missing dir name)) :
    t.entry dir name = none := by
  induction names generalizing d trail with
  | nil => cases hwalk
  | cons name' names ih =>
    unfold walk at hwalk
    by_cases hdir : t.isDir d = false
    · rw [if_pos hdir] at hwalk
      cases hwalk
    · rw [if_neg hdir] at hwalk
      by_cases hskip : name' = [] ∨ name' = SELF
      · rw [if_pos hskip] at hwalk
        exact ih hwalk
      · rw [if_neg hskip] at hwalk
        cases hentry : t.entry d name' with
        | none =>
          simp only [hentry] at hwalk
          split_ifs at hwalk
          cases hwalk
          exact hentry
        | some j =>
          simp only [hentry] at hwalk
          split at hwalk
          · cases hwalk
          next absolute target attr hlink =>
            by_cases hlast : names = [] ∧ last = false
            · rw [if_pos hlast] at hwalk
              cases hwalk
            · rw [if_neg hlast] at hwalk
              obtain ⟨rest, hrest, -⟩ := through_eq_ok hwalk
              exact hfollow _ _ _ hrest
          · obtain ⟨rest, hrest, -⟩ := through_eq_ok hwalk
            exact ih hrest

theorem resolve_missing {d : ℕ} {name : Name}
    (h : t.resolve last n d names = .ok (trail, .missing dir name)) : t.entry dir name = none := by
  induction n generalizing d names trail with
  | zero => exact walk_missing (fun _ _ _ hloop => by cases hloop) h
  | succ n ih => exact walk_missing (fun _ _ _ hr => ih hr) h

theorem entry_of_slot {d : ℕ} {slot : Slot} (h : t.slot d names = .ok slot)
    (hnone : slot.node = none) : t.entry slot.dir slot.name = none := by
  unfold Tree.slot at h
  dsimp only at h
  split at h
  · cases h
  · split_ifs at h
    split at h
    · cases h
    next hmissing =>
      cases h
      exact resolve_missing hmissing
    · split at h
      · cases h
      · cases h
        cases hnone

end

/-! One name more. -/

/-- Where a name leads from a directory; a link is not followed. -/
def look (t : Tree A) (dir : ℕ) (name : Name) : Except Fault Place :=
  if t.isDir dir = false then .error .notDir
  else if name = [] ∨ name = SELF then .ok (.found dir)
  else
    match t.entry dir name with
    | none => .ok (.missing dir name)
    | some i =>
      match t.inode i with
      | none => .error .noEntry
      | some _ => .ok (.found i)

section
variable {t : Tree A} {n dir i : ℕ} {names tail : List Name} {name : Name} {trail : Trail}
  {follow follow' : ℕ → List Name → Except Fault (Trail × Place)}

@[simp] theorem map_through (e : ℕ × Name) (r : Except Fault (Trail × Place)) :
    (through e r).map Prod.snd = r.map Prod.snd := by
  cases r <;> rfl

theorem walk_one : (t.walk follow false dir [name]).map Prod.snd = t.look dir name := by
  unfold walk look
  by_cases hdir : t.isDir dir = false
  · rw [if_pos hdir, if_pos hdir]
    rfl
  · rw [if_neg hdir, if_neg hdir]
    by_cases hskip : name = [] ∨ name = SELF
    · rw [if_pos hskip, if_pos hskip]
      rfl
    · rw [if_neg hskip, if_neg hskip]
      cases hentry : t.entry dir name with
      | none => rfl
      | some j =>
        cases hinode : t.inode j with
        | none => simp [hinode, Except.map]
        | some x =>
          obtain ⟨kind, attr⟩ := x
          cases kind <;> simp [hinode, walk, Except.map, through]

/-- Separators at the end of a path lead nowhere else. -/
theorem found_of_tail (htail : ∀ name ∈ tail, name = [])
    (hwalk : t.walk follow true dir tail = .ok (trail, .found i)) : i = dir := by
  induction tail with
  | nil =>
    cases hwalk
    rfl
  | cons name tail ih =>
    have hname := htail name (by simp)
    unfold walk at hwalk
    by_cases hdir : t.isDir dir = false
    · rw [if_pos hdir] at hwalk
      cases hwalk
    · rw [if_neg hdir, if_pos (Or.inl hname)] at hwalk
      exact ih (fun name hn => htail name (by simp [hn])) hwalk

/-- A name added to a path is looked up where the path leads; `tail` are separators. -/
theorem walk_snoc (htail : ∀ name ∈ tail, name = [])
    (hfollow : ∀ dir names trail, follow dir (names ++ tail) = .ok (trail, .found i) →
      (follow' dir (names ++ [name])).map Prod.snd = t.look i name)
    (hwalk : t.walk follow true dir (names ++ tail) = .ok (trail, .found i)) :
    (t.walk follow' false dir (names ++ [name])).map Prod.snd = t.look i name := by
  induction names generalizing dir trail with
  | nil =>
    rw [List.nil_append] at hwalk ⊢
    rw [found_of_tail htail hwalk]
    exact walk_one
  | cons first names ih =>
    rw [List.cons_append] at hwalk ⊢
    unfold walk at hwalk ⊢
    by_cases hdir : t.isDir dir = false
    · rw [if_pos hdir] at hwalk
      cases hwalk
    · rw [if_neg hdir] at hwalk ⊢
      by_cases hskip : first = [] ∨ first = SELF
      · rw [if_pos hskip] at hwalk ⊢
        exact ih hwalk
      · rw [if_neg hskip] at hwalk ⊢
        cases hentry : t.entry dir first with
        | none =>
          simp only [hentry] at hwalk
          split_ifs at hwalk
          cases hwalk
        | some j =>
          simp only [hentry] at hwalk
          cases hinode : t.inode j with
          | none => simp [hinode] at hwalk
          | some x =>
            obtain ⟨kind, attr⟩ := x
            cases kind with
            | link absolute target =>
              simp only [hinode, Bool.true_eq_false, and_false, if_false] at hwalk
              obtain ⟨rest, hrest, -⟩ := through_eq_ok hwalk
              have hmore : names ++ [name] ≠ [] := by simp
              simp only [hinode, hmore, false_and, if_false, map_through]
              rw [← List.append_assoc] at hrest ⊢
              exact hfollow _ _ _ hrest
            | file | dir =>
              simp only [hinode] at hwalk
              obtain ⟨rest, hrest, -⟩ := through_eq_ok hwalk
              simp only [hinode, map_through]
              exact ih hrest

theorem resolve_snoc (htail : ∀ name ∈ tail, name = [])
    (h : t.resolve true n dir (names ++ tail) = .ok (trail, .found i)) :
    (t.resolve false n dir (names ++ [name])).map Prod.snd = t.look i name := by
  induction n generalizing dir names trail with
  | zero => exact walk_snoc htail (fun _ _ _ hloop => by cases hloop) h
  | succ n ih => exact walk_snoc htail (fun _ _ _ hr => ih hr) h

theorem lookup_snoc (htail : ∀ name ∈ tail, name = [])
    (h : t.lookup true dir (names ++ tail) = .ok (trail, .found i)) :
    (t.lookup false dir (names ++ [name])).map Prod.snd = t.look i name :=
  resolve_snoc htail h

end
end Tree
end P9cpu.Core
