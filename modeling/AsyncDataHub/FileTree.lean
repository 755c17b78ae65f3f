import Mathlib

/-! Files, directories and symbolic links: the kernel's walk along a path, and Python's `realpath`,
which reads the links one by one and takes no notice of what is missing. -/
namespace AsyncDataHub.FileTree

abbrev Path := List String

/-- The text of a symbolic link: what stands between its slashes. -/
structure Target where
  absolute : Bool
  components : List String
  deriving DecidableEq

inductive Node
  | file
  | directory (entries : List String)
  | symlink (target : Target)
  deriving DecidableEq

def nameMax : ℕ := 255

def maxSymlinks : ℕ := 40

def nul : Char := Char.ofNat 0

structure LegalName (name : String) : Prop where
  nonempty : name ≠ ""
  not_dot : name ≠ "."
  not_dots : name ≠ ".."
  no_slash : '/' ∉ name.toList
  no_nul : nul ∉ name.toList
  short : name.utf8ByteSize ≤ nameMax

/-- A tree of nodes by their paths; links are not followed here. -/
structure FileSystem where
  node : Path → Option Node
  root : ∃ entries, node [] = some (.directory entries)
  parent : ∀ path name, node (path ++ [name]) ≠ none →
    ∃ entries, node path = some (.directory entries)
  mem_entries : ∀ path entries name, node path = some (.directory entries) →
    (name ∈ entries ↔ node (path ++ [name]) ≠ none)
  legal : ∀ path name, node (path ++ [name]) ≠ none → LegalName name

inductive Errno
  | enoent
  | enotdir
  | eloop
  | enametoolong
  deriving DecidableEq

def Target.base (t : Target) (path : Path) : Path := if t.absolute then [] else path

def FileSystem.isDirectory (fs : FileSystem) (path : Path) : Bool :=
  match fs.node path with
  | some (.directory _) => true
  | _ => false

/-- The components of a path one by one; a link goes on with its target before the rest. -/
def walkWith (fs : FileSystem) (follow : Path → List String → Except Errno Path) :
    Path → List String → Except Errno Path
  | path, [] => .ok path
  | path, name :: rest =>
    if fs.isDirectory path = false then .error .enotdir
    else if name = "" ∨ name = "." then walkWith fs follow path rest
    else if name = ".." then walkWith fs follow path.dropLast rest
    else if nameMax < name.utf8ByteSize then .error .enametoolong
    else
      match fs.node (path ++ [name]) with
      | none => .error .enoent
      | some (.symlink t) => follow (t.base path) (t.components ++ rest)
      | some _ => walkWith fs follow (path ++ [name]) rest

/-- A walk that may follow `links` links. -/
def walk (fs : FileSystem) : ℕ → Path → List String → Except Errno Path
  | 0 => walkWith fs fun _ _ => .error .eloop
  | links + 1 => walkWith fs (walk fs links)

def FileSystem.follow (fs : FileSystem) (path : Path) : Except Errno Path :=
  walk fs maxSymlinks [] path

inductive PathError
  | osError (errno : Errno)
  | valueError
  | runtimeError
  | recursionError
  deriving DecidableEq

/-- The errors that `Path.is_file` and `Path.is_dir` take for a no. -/
def Errno.ignored : Errno → Bool
  | .enametoolong => false
  | _ => true

def FileSystem.isFile (fs : FileSystem) (path : Path) : Except PathError Bool :=
  match fs.follow path with
  | .ok target => .ok (fs.node target = some .file)
  | .error errno => if errno.ignored then .ok false else .error (.osError errno)

def FileSystem.isDir (fs : FileSystem) (path : Path) : Except PathError Bool :=
  match fs.follow path with
  | .ok target => .ok (fs.isDirectory target)
  | .error errno => if errno.ignored then .ok false else .error (.osError errno)

def FileSystem.iterdir (fs : FileSystem) (path : Path) : List String :=
  match fs.node path with
  | some (.directory entries) => entries
  | _ => []

/-- The links that have been met: what each has led to, or nothing while it is being read. -/
abbrev Seen := List (Path × Option Path)

structure Joined where
  path : Path
  ok : Bool
  seen : Seen

def startsWithSlash (components : List String) : Bool :=
  components.head? = some "" && components.tail ≠ []

/-- `os.path.join` of a path and what is left of a text: an absolute rest drops the path. A path
that ends with a slash has an empty last component. -/
def osJoin (path : Path) (rest : List String) : Path :=
  if startsWithSlash rest then rest.tail
  else (if path.getLast? = some "" then path.dropLast else path) ++
    (if rest = [] then [""] else rest)

/-- The loop of `_joinrealpath`; `descend` is its call of itself for a link's target. -/
def joinWith (fs : FileSystem) (descend : Path → List String → Seen → Except PathError Joined) :
    Path → List String → Seen → Except PathError Joined
  | path, [], seen => .ok ⟨path, true, seen⟩
  | path, name :: rest, seen =>
    if name = "" ∨ name = "." then joinWith fs descend path rest seen
    else if name = ".." then joinWith fs descend path.dropLast rest seen
    else if nul ∈ name.toList then .error .valueError
    else
      match fs.node (path ++ [name]) with
      | some (.symlink t) =>
        match seen.lookup (path ++ [name]) with
        | some (some resolved) => joinWith fs descend resolved rest seen
        | some none => .ok ⟨osJoin (path ++ [name]) rest, false, seen⟩
        | none =>
          match descend (t.base path) t.components ((path ++ [name], none) :: seen) with
          | .error error => .error error
          | .ok joined =>
            if joined.ok then
              joinWith fs descend joined.path rest
                ((path ++ [name], some joined.path) :: joined.seen)
            else .ok ⟨osJoin joined.path rest, false, joined.seen⟩
      | _ => joinWith fs descend (path ++ [name]) rest seen

/-- `_joinrealpath` with room for `depth` calls on the stack. -/
def joinrealpath (fs : FileSystem) : ℕ → Path → List String → Seen → Except PathError Joined
  | 0 => fun _ _ _ => .error .recursionError
  | depth + 1 => joinWith fs (joinrealpath fs depth)

def normpath : Path → List String → Path
  | path, [] => path
  | path, name :: rest =>
    if name = "" ∨ name = "." then normpath path rest
    else if name = ".." then normpath path.dropLast rest
    else normpath (path ++ [name]) rest

/-- A path of pathlib. A text that starts with exactly two slashes has another root. -/
structure PurePath where
  doubleRoot : Bool
  parts : Path
  deriving DecidableEq

def abspath (path : Path) : PurePath where
  doubleRoot := startsWithSlash path && !startsWithSlash path.tail
  parts := normpath [] path

def realpath (fs : FileSystem) (depth : ℕ) (path : Path) : Except PathError PurePath :=
  (joinrealpath fs depth [] path []).map fun joined => abspath joined.path

/-- `Path.resolve`: a loop of links is found by looking at the result. -/
def resolve (fs : FileSystem) (depth : ℕ) (path : Path) : Except PathError PurePath := do
  let real ← realpath fs depth path
  if fs.follow real.parts = .error .eloop then .error .runtimeError else .ok real

/-- `PurePath.is_relative_to` a path with the usual root. -/
def PurePath.isRelativeTo (path : PurePath) (other : Path) : Bool :=
  !path.doubleRoot && other.isPrefixOf path.parts

def suffix (name : List Char) : List Char :=
  let extension := (name.reverse.takeWhile (· ≠ '.')).reverse
  if extension ≠ [] ∧ extension.length + 1 < name.length then '.' :: extension else []

/-- The walk by its steps, with the number of links that it follows. -/
inductive Leads (fs : FileSystem) : Path → List String → Path → ℕ → Prop
  | nil {path : Path} : Leads fs path [] path 0
  | skip {path : Path} {name : String} {rest : List String} {target : Path} {n : ℕ}
      (same : name = "" ∨ name = ".") (onward : Leads fs path rest target n) :
      Leads fs path (name :: rest) target n
  | up {path : Path} {rest : List String} {target : Path} {n : ℕ}
      (onward : Leads fs path.dropLast rest target n) : Leads fs path (".." :: rest) target n
  | down {path : Path} {name : String} {rest : List String} {target : Path} {node : Node} {n : ℕ}
      (found : fs.node (path ++ [name]) = some node) (solid : ∀ t, node ≠ .symlink t)
      (onward : Leads fs (path ++ [name]) rest target n) : Leads fs path (name :: rest) target n
  | link {path : Path} {name : String} {rest : List String} {t : Target} {middle target : Path}
      {m n : ℕ} (found : fs.node (path ++ [name]) = some (.symlink t))
      (inner : Leads fs (t.base path) t.components middle m)
      (onward : Leads fs middle rest target n) : Leads fs path (name :: rest) target (m + n + 1)

/-- A link, what it leads to and how many links that takes. -/
def LinkLeads (fs : FileSystem) (link target : Path) (n : ℕ) : Prop :=
  ∃ path name t, link = path ++ [name] ∧ fs.node link = some (.symlink t) ∧
    Leads fs (t.base path) t.components target n

variable {fs : FileSystem} {path target target' middle : Path} {name : String}
  {rest names : List String} {t : Target} {links depth m n n' : ℕ}

lemma FileSystem.legal_of_node {node : Node} (h : fs.node (path ++ [name]) = some node) :
    LegalName name := fs.legal path name (by simp [h])

lemma LegalName.down (h : LegalName name) : ¬ (name = "" ∨ name = ".") :=
  not_or.mpr ⟨h.nonempty, h.not_dot⟩

lemma Leads.unique (h : Leads fs path rest target n) (h' : Leads fs path rest target' n') :
    target = target' ∧ n = n' := by
  induction h generalizing target' n' with
  | nil =>
    cases h'
    exact ⟨rfl, rfl⟩
  | skip hsame _ ih =>
    cases h' with
    | skip _ honward => exact ih honward
    | up => simp at hsame
    | down hfound => exact absurd hsame (fs.legal_of_node hfound).down
    | link hfound => exact absurd hsame (fs.legal_of_node hfound).down
  | up _ ih =>
    cases h' with
    | skip hsame _ => simp at hsame
    | up honward => exact ih honward
    | down hfound => exact absurd rfl (fs.legal_of_node hfound).not_dots
    | link hfound => exact absurd rfl (fs.legal_of_node hfound).not_dots
  | down hfound hsolid _ ih =>
    have hlegal := fs.legal_of_node hfound
    cases h' with
    | skip hsame _ => exact absurd hsame hlegal.down
    | up => exact absurd rfl hlegal.not_dots
    | down _ _ honward => exact ih honward
    | link hfound' =>
      rw [hfound, Option.some.injEq] at hfound'
      exact absurd hfound' (hsolid _)
  | link hfound _ _ ihinner ihonward =>
    have hlegal := fs.legal_of_node hfound
    cases h' with
    | skip hsame _ => exact absurd hsame hlegal.down
    | up => exact absurd rfl hlegal.not_dots
    | down hfound' hsolid' =>
      rw [hfound, Option.some.injEq] at hfound'
      exact absurd hfound'.symm (hsolid' _)
    | link hfound' hinner' honward' =>
      rw [hfound, Option.some.injEq, Node.symlink.injEq] at hfound'
      subst hfound'
      obtain ⟨rfl, rfl⟩ := ihinner hinner'
      obtain ⟨rfl, rfl⟩ := ihonward honward'
      exact ⟨rfl, rfl⟩

lemma Leads.split (h : Leads fs path (names ++ rest) target n) :
    ∃ middle m n', Leads fs path names middle m ∧ Leads fs middle rest target n' ∧
      n = m + n' := by
  induction names generalizing path n with
  | nil => exact ⟨path, 0, n, .nil, h, by omega⟩
  | cons name names ih =>
    cases h with
    | skip hsame honward =>
      obtain ⟨middle, m, n', hfirst, hlast, rfl⟩ := ih honward
      exact ⟨middle, m, n', .skip hsame hfirst, hlast, rfl⟩
    | up honward =>
      obtain ⟨middle, m, n', hfirst, hlast, rfl⟩ := ih honward
      exact ⟨middle, m, n', .up hfirst, hlast, rfl⟩
    | down hfound hsolid honward =>
      obtain ⟨middle, m, n', hfirst, hlast, rfl⟩ := ih honward
      exact ⟨middle, m, n', .down hfound hsolid hfirst, hlast, rfl⟩
    | link hfound hinner honward =>
      obtain ⟨middle, m, n', hfirst, hlast, rfl⟩ := ih honward
      exact ⟨middle, _, n', .link hfound hinner hfirst, hlast, by omega⟩

lemma leads_of_walkWith {follow : Path → List String → Except Errno Path}
    (hfollow : ∀ path rest target, follow path rest = .ok target →
      ∃ n < links, Leads fs path rest target n)
    (h : walkWith fs follow path rest = .ok target) : ∃ n ≤ links, Leads fs path rest target n := by
  induction rest generalizing path with
  | nil =>
    obtain rfl := Except.ok.inj h
    exact ⟨0, by omega, .nil⟩
  | cons name rest ih =>
    unfold walkWith at h
    split_ifs at h with _ hsame hdots
    · obtain ⟨n, hn, honward⟩ := ih h
      exact ⟨n, hn, .skip hsame honward⟩
    · obtain ⟨n, hn, honward⟩ := ih h
      exact ⟨n, hn, hdots ▸ .up honward⟩
    · cases hnode : fs.node (path ++ [name]) with
      | none => simp [hnode] at h
      | some node =>
        cases node with
        | symlink t =>
          simp only [hnode] at h
          obtain ⟨_, hn, hboth⟩ := hfollow _ _ _ h
          obtain ⟨middle, m, n, hinner, honward, rfl⟩ := hboth.split
          exact ⟨m + n + 1, by omega, .link hnode hinner honward⟩
        | file | directory _ =>
          simp only [hnode] at h
          obtain ⟨n, hn, honward⟩ := ih h
          exact ⟨n, hn, .down hnode (by simp) honward⟩

lemma leads_of_walk (h : walk fs links path rest = .ok target) :
    ∃ n ≤ links, Leads fs path rest target n := by
  induction links generalizing path rest target with
  | zero => exact leads_of_walkWith (by simp) h
  | succ links ih =>
    refine leads_of_walkWith (fun path rest target hwalk => ?_) h
    obtain ⟨n, hn, hleads⟩ := ih hwalk
    exact ⟨n, by omega, hleads⟩

/-- What has been read is right, and what is being read takes at least `n` links more. -/
def Sound (fs : FileSystem) (n : ℕ) (seen : Seen) : Prop :=
  ∀ link, (∀ target, seen.lookup link = some (some target) → ∃ m, LinkLeads fs link target m) ∧
    (seen.lookup link = some none → ∀ target m, LinkLeads fs link target m → n ≤ m)

def Settled (fs : FileSystem) (seen seen' : Seen) : Prop :=
  ∀ link, (∀ target, seen'.lookup link = some (some target) → ∃ m, LinkLeads fs link target m) ∧
    (seen'.lookup link = some none → seen.lookup link = some none)

variable {seen seen' : Seen} {link : Path}

lemma Sound.mono (h : Sound fs n seen) (hle : m ≤ n) : Sound fs m seen := fun link =>
  ⟨(h link).1, fun hopen target k hleads => hle.trans ((h link).2 hopen target k hleads)⟩

lemma Sound.settled (h : Sound fs n seen) : Settled fs seen seen := fun link =>
  ⟨(h link).1, id⟩

lemma Settled.sound (h : Settled fs seen seen') (hs : Sound fs n seen) : Sound fs n seen' :=
  fun link => ⟨(h link).1, fun hopen => (hs link).2 ((h link).2 hopen)⟩

lemma LinkLeads.unique (h : LinkLeads fs link target n) (h' : LinkLeads fs link target' n') :
    target = target' ∧ n = n' := by
  obtain ⟨path, name, t, rfl, hnode, hleads⟩ := h
  obtain ⟨path', name', t', heq, hnode', hleads'⟩ := h'
  obtain ⟨rfl, hname⟩ := List.append_inj' heq rfl
  rw [hnode, Option.some.injEq, Node.symlink.injEq] at hnode'
  subst hnode'
  exact hleads.unique hleads'

lemma Sound.cons_open (h : Sound fs n seen) (hleads : LinkLeads fs link target m) (hle : m ≤ n) :
    Sound fs m ((link, none) :: seen) := by
  intro other
  by_cases hsame : other = link
  · subst hsame
    simp only [List.lookup_cons, beq_self_eq_true]
    refine ⟨by simp, fun _ target' m' hleads' => ?_⟩
    exact (hleads.unique hleads').2.le
  · have hne : (other == link) = false := by simpa using hsame
    simp only [List.lookup_cons, hne]
    exact h.mono hle other

lemma Settled.cons_close (h : Settled fs ((link, none) :: seen) seen')
    (hleads : LinkLeads fs link target m) : Settled fs seen ((link, some target) :: seen') := by
  intro other
  by_cases hsame : other = link
  · subst hsame
    simp only [List.lookup_cons, beq_self_eq_true]
    refine ⟨fun target' heq => ?_, by simp⟩
    obtain rfl : target = target' := by simpa using heq
    exact ⟨m, hleads⟩
  · have hne : (other == link) = false := by simpa using hsame
    have hother := h other
    simp only [List.lookup_cons, hne] at hother ⊢
    exact hother

lemma Settled.trans {seen'' : Seen} (h : Settled fs seen seen') (h' : Settled fs seen' seen'') :
    Settled fs seen seen'' := fun link =>
  ⟨(h' link).1, fun hopen => (h link).2 ((h' link).2 hopen)⟩

lemma joinWith_down (descend : Path → List String → Seen → Except PathError Joined)
    (rest : List String) (seen : Seen) (hsame : ¬ (name = "" ∨ name = ".")) (hdots : name ≠ "..")
    (hnul : nul ∉ name.toList) (hlink : ∀ t, fs.node (path ++ [name]) ≠ some (.symlink t)) :
    joinWith fs descend path (name :: rest) seen =
      joinWith fs descend (path ++ [name]) rest seen := by
  rw [joinWith, if_neg hsame, if_neg hdots, if_neg hnul]
  cases hnode : fs.node (path ++ [name]) with
  | none => rfl
  | some node =>
    cases node with
    | symlink t => exact absurd hnode (hlink t)
    | file | directory _ => rfl

/-- Where the kernel arrives, reading the links arrives too: a link that is still being read would
need itself. -/
lemma joinWith_of_leads (h : Leads fs path rest target n) (hdepth : n ≤ depth)
    (hs : Sound fs n seen) : ∃ seen', joinWith fs (joinrealpath fs depth) path rest seen =
      .ok ⟨target, true, seen'⟩ ∧ Settled fs seen seen' := by
  induction h generalizing depth seen with
  | nil => exact ⟨seen, rfl, hs.settled⟩
  | skip hsame _ ih =>
    rw [joinWith, if_pos hsame]
    exact ih hdepth hs
  | up _ ih =>
    rw [joinWith, if_neg (by simp), if_pos rfl]
    exact ih hdepth hs
  | down hfound hsolid _ ih =>
    have hlegal := fs.legal_of_node hfound
    rw [joinWith_down _ _ _ hlegal.down hlegal.not_dots hlegal.no_nul
      (by simpa [hfound] using hsolid)]
    exact ih hdepth hs
  | link hfound hinner _ ihinner ihonward =>
    rename_i path name rest t middle target m n _
    have hlegal := fs.legal_of_node hfound
    have hlink : LinkLeads fs (path ++ [name]) middle m := ⟨path, name, t, rfl, hfound, hinner⟩
    rw [joinWith, if_neg hlegal.down, if_neg hlegal.not_dots, if_neg hlegal.no_nul]
    simp only [hfound]
    cases hlookup : seen.lookup (path ++ [name]) with
    | none =>
      obtain ⟨depth, rfl⟩ : ∃ d, depth = d + 1 := ⟨depth - 1, by omega⟩
      have hinside : m ≤ depth := by omega
      have hafter : n ≤ depth + 1 := by omega
      obtain ⟨seen', hjoin, hsettled⟩ := ihinner hinside (hs.cons_open hlink (by omega))
      have hclosed := hsettled.cons_close hlink
      obtain ⟨seen'', hrest, hlast⟩ := ihonward hafter (hclosed.sound (hs.mono (by omega)))
      simp only [joinrealpath, hjoin, if_true]
      exact ⟨seen'', hrest, hclosed.trans hlast⟩
    | some entry =>
      cases entry with
      | none =>
        have hle := (hs _).2 hlookup middle m hlink
        omega
      | some resolved =>
        obtain ⟨m', hresolved⟩ := (hs _).1 resolved hlookup
        obtain ⟨rfl, -⟩ := hlink.unique hresolved
        exact ihonward (by omega) (hs.mono (by omega))

/-- Something is there, and it is no link. -/
def FileSystem.Solid (fs : FileSystem) (path : Path) : Prop :=
  ∃ node, fs.node path = some node ∧ ∀ t, node ≠ .symlink t

lemma FileSystem.isDirectory_iff :
    fs.isDirectory path = true ↔ ∃ entries, fs.node path = some (.directory entries) := by
  unfold FileSystem.isDirectory
  cases hnode : fs.node path with
  | none => simp
  | some node => cases node <;> simp

lemma FileSystem.solid_of_isDirectory (h : fs.isDirectory path = true) : fs.Solid path := by
  obtain ⟨entries, hnode⟩ := FileSystem.isDirectory_iff.mp h
  exact ⟨_, hnode, by simp⟩

lemma FileSystem.isDirectory_parent (h : fs.node (path ++ [name]) ≠ none) :
    fs.isDirectory path = true := FileSystem.isDirectory_iff.mpr (fs.parent path name h)

lemma FileSystem.isDirectory_above (h : fs.node (path ++ name :: names) ≠ none) :
    fs.isDirectory path = true := by
  induction names using List.reverseRecOn with
  | nil => exact FileSystem.isDirectory_parent h
  | append_singleton names last ih =>
    refine ih ?_
    have hparent : fs.node ((path ++ name :: names) ++ [last]) ≠ none := by simpa using h
    obtain ⟨entries, hnode⟩ := fs.parent _ _ hparent
    simp [hnode]

lemma FileSystem.Solid.exists (h : fs.Solid path) : fs.node path ≠ none := by
  obtain ⟨node, hnode, -⟩ := h
  simp [hnode]

lemma FileSystem.Solid.step (h : fs.Solid (path ++ name :: names)) :
    fs.isDirectory path = true ∧ fs.Solid (path ++ [name]) := by
  refine ⟨FileSystem.isDirectory_above h.exists, ?_⟩
  cases names with
  | nil => exact h
  | cons next names =>
    have habove : fs.node ((path ++ [name]) ++ next :: names) ≠ none := by simpa using h.exists
    exact FileSystem.solid_of_isDirectory (FileSystem.isDirectory_above habove)

lemma FileSystem.Solid.dropLast (h : fs.Solid path) : fs.Solid path.dropLast := by
  cases path using List.reverseRecOn with
  | nil => exact h
  | append_singleton path name =>
    rw [List.dropLast_concat]
    exact FileSystem.solid_of_isDirectory (FileSystem.isDirectory_parent h.exists)

lemma FileSystem.solid_root : fs.Solid [] := by
  obtain ⟨entries, hroot⟩ := fs.root
  exact ⟨_, hroot, by simp⟩

lemma Leads.solid (h : Leads fs path rest target n) (hpath : fs.Solid path) : fs.Solid target := by
  induction h with
  | nil => exact hpath
  | skip _ _ ih => exact ih hpath
  | up _ ih => exact ih hpath.dropLast
  | down hfound hsolid _ ih => exact ih ⟨_, hfound, hsolid⟩
  | @link _ _ _ t _ _ _ _ _ _ _ ihinner ihonward =>
    refine ihonward (ihinner ?_)
    unfold Target.base
    split_ifs
    · exact FileSystem.solid_root
    · exact hpath

lemma walkWith_solid (follow : Path → List String → Except Errno Path)
    (h : fs.Solid (path ++ names)) :
    walkWith fs follow path (names ++ rest) = walkWith fs follow (path ++ names) rest := by
  induction names generalizing path with
  | nil => simp
  | cons name names ih =>
    obtain ⟨hdirectory, node, hnode, hnolink⟩ := h.step
    have hlegal := fs.legal_of_node hnode
    have hsplit : path ++ name :: names = (path ++ [name]) ++ names := by simp
    rw [hsplit] at h ⊢
    rw [List.cons_append, walkWith, if_neg (by simp [hdirectory]), if_neg hlegal.down,
      if_neg hlegal.not_dots, if_neg (not_lt.mpr hlegal.short)]
    cases node with
    | symlink t => exact absurd rfl (hnolink t)
    | file | directory _ => simpa only [hnode] using ih h

lemma joinWith_solid (descend : Path → List String → Seen → Except PathError Joined) (seen : Seen)
    (rest : List String) (h : fs.Solid (path ++ names)) :
    joinWith fs descend path (names ++ rest) seen =
      joinWith fs descend (path ++ names) rest seen := by
  induction names generalizing path with
  | nil => simp
  | cons name names ih =>
    obtain ⟨-, node, hnode, hnolink⟩ := h.step
    have hlegal := fs.legal_of_node hnode
    have hsplit : path ++ name :: names = (path ++ [name]) ++ names := by simp
    rw [hsplit] at h ⊢
    rw [List.cons_append, joinWith_down _ _ _ hlegal.down hlegal.not_dots hlegal.no_nul
      (by simpa [hnode] using hnolink)]
    exact ih h

lemma normpath_solid (rest : List String) (h : fs.Solid (path ++ names)) :
    normpath path (names ++ rest) = normpath (path ++ names) rest := by
  induction names generalizing path with
  | nil => simp
  | cons name names ih =>
    obtain ⟨-, node, hnode, -⟩ := h.step
    have hlegal := fs.legal_of_node hnode
    have hsplit : path ++ name :: names = (path ++ [name]) ++ names := by simp
    rw [hsplit] at h ⊢
    rw [List.cons_append, normpath, if_neg hlegal.down, if_neg hlegal.not_dots]
    exact ih h

lemma walk_solid (links : ℕ) (rest : List String) (h : fs.Solid path) :
    walk fs links [] (path ++ rest) = walk fs links path rest := by
  cases links <;> exact walkWith_solid _ h

lemma FileSystem.follow_solid (h : fs.Solid path) : fs.follow path = .ok path := by
  have hwalk := walk_solid maxSymlinks [] h
  rw [List.append_nil] at hwalk
  rw [FileSystem.follow, hwalk]
  rfl

lemma FileSystem.solid_of_follow (h : fs.follow path = .ok target) : fs.Solid target := by
  obtain ⟨n, -, hleads⟩ := leads_of_walk h
  exact hleads.solid FileSystem.solid_root

lemma FileSystem.isFile_eq_true : fs.isFile path = .ok true ↔
    ∃ target, fs.follow path = .ok target ∧ fs.node target = some .file := by
  unfold FileSystem.isFile
  cases hfollow : fs.follow path with
  | error errno => cases errno <;> simp [Errno.ignored]
  | ok target => simp

lemma abspath_solid (h : fs.Solid path) : abspath path = ⟨false, path⟩ := by
  have hslash : startsWithSlash path = false := by
    cases path with
    | nil => rfl
    | cons name names =>
      obtain ⟨-, node, hnode, -⟩ := @FileSystem.Solid.step _ [] _ _ h
      simp [startsWithSlash, (fs.legal_of_node hnode).nonempty]
  have hnorm := @normpath_solid _ [] _ [] h
  rw [List.append_nil, List.nil_append] at hnorm
  simp [abspath, hslash, hnorm, normpath]

/-- What the kernel can follow resolves to the same path. -/
theorem resolve_of_follow (h : fs.follow path = .ok target) (hdepth : maxSymlinks < depth) :
    resolve fs depth path = .ok ⟨false, target⟩ := by
  obtain ⟨depth, rfl⟩ : ∃ d, depth = d + 1 := ⟨depth - 1, by omega⟩
  obtain ⟨n, hn, hleads⟩ := leads_of_walk h
  have hs : Sound fs n [] := fun link => ⟨by simp, by simp⟩
  have hroom : n ≤ depth := by omega
  obtain ⟨seen, hjoin, -⟩ := joinWith_of_leads hleads hroom hs
  have hsolid : fs.Solid target := FileSystem.solid_of_follow h
  have hreal : realpath fs (depth + 1) path = .ok ⟨false, target⟩ := by
    rw [realpath, joinrealpath, hjoin]
    exact congrArg Except.ok (abspath_solid hsolid)
  have hfollow : fs.follow target = .ok target := FileSystem.follow_solid hsolid
  simp [resolve, hreal, hfollow, bind, Except.bind]

lemma FileSystem.isDirectory_dropLast (h : fs.isDirectory path = true) :
    fs.isDirectory path.dropLast = true := by
  cases path using List.reverseRecOn with
  | nil => exact h
  | append_singleton path name =>
    rw [List.dropLast_concat]
    exact FileSystem.isDirectory_parent (FileSystem.solid_of_isDirectory h).exists

lemma FileSystem.not_file (h : fs.isDirectory path = true) : fs.node path ≠ some .file := by
  obtain ⟨entries, hnode⟩ := FileSystem.isDirectory_iff.mp h
  simp [hnode]

lemma FileSystem.entry_of_follow (hdir : fs.isDirectory path = true)
    (h : fs.follow (path ++ [name]) = .ok target) (hfile : fs.node target = some .file) :
    fs.node (path ++ [name]) ≠ none := by
  intro hnone
  rw [FileSystem.follow, walk_solid _ _ (FileSystem.solid_of_isDirectory hdir), maxSymlinks, walk,
    walkWith, if_neg (by simp [hdir])] at h
  split_ifs at h with hsame hdots
  · obtain rfl := Except.ok.inj h
    exact FileSystem.not_file hdir hfile
  · obtain rfl := Except.ok.inj h
    exact FileSystem.not_file (FileSystem.isDirectory_dropLast hdir) hfile
  · simp [hnone] at h

lemma resolve_of_no_link (hdir : fs.isDirectory path = true)
    (hname : name ≠ "" ∧ name ≠ "." ∧ name ≠ "..")
    (hlink : ∀ t, fs.node (path ++ [name]) ≠ some (.symlink t))
    {real : PurePath} (h : resolve fs depth (path ++ [name]) = .ok real) :
    real = ⟨false, path ++ [name]⟩ := by
  obtain ⟨hempty, hdot, hdots⟩ := hname
  have hsolid : fs.Solid ([] ++ path) := FileSystem.solid_of_isDirectory hdir
  have hjoin : ∀ joined, joinrealpath fs depth [] (path ++ [name]) [] = .ok joined →
      joined.path = path ++ [name] := by
    intro joined hjoined
    cases depth with
    | zero => simp [joinrealpath] at hjoined
    | succ depth =>
      have hdown := joinWith_solid (joinrealpath fs depth) [] [name] hsolid
      rw [joinrealpath, hdown, List.nil_append] at hjoined
      by_cases hnul : nul ∈ name.toList
      · simp [joinWith, hempty, hdot, hdots, hnul] at hjoined
      · rw [joinWith_down _ _ _ (not_or.mpr ⟨hempty, hdot⟩) hdots hnul hlink] at hjoined
        exact (Except.ok.inj hjoined) ▸ rfl
  have hnorm : normpath [] (path ++ [name]) = path ++ [name] := by
    rw [normpath_solid [name] hsolid]
    simp [normpath, hempty, hdot, hdots]
  have hslash : startsWithSlash (path ++ [name]) = false := by
    cases path with
    | nil => simp [startsWithSlash]
    | cons first names =>
      obtain ⟨-, node, hnode, -⟩ := @FileSystem.Solid.step _ [] _ _ hsolid
      simp [startsWithSlash, (fs.legal_of_node hnode).nonempty]
  have habs : abspath (path ++ [name]) = ⟨false, path ++ [name]⟩ := by
    simp [abspath, hslash, hnorm]
  unfold resolve realpath at h
  cases hjoined : joinrealpath fs depth [] (path ++ [name]) [] with
  | error error => simp [hjoined, bind, Except.bind, Except.map] at h
  | ok joined =>
    simp only [hjoined, Except.map, bind, Except.bind, hjoin joined hjoined, habs] at h
    split_ifs at h
    exact (Except.ok.inj h).symm

end AsyncDataHub.FileTree
