import AsyncDataHub.MediaRange
import AsyncDataHub.FileTree

/-! The media files of the samples directory: the list that the picker shows, against the names that
can be streamed. -/
namespace AsyncDataHub.Media
open FileTree

/-- The service with the directory that it has resolved at its construction. The stack has room for
as many links as the kernel follows. -/
structure MediaService where
  fs : FileSystem
  samplesDir : Path
  isDirectory : fs.isDirectory samplesDir = true
  depth : ℕ
  deep : maxSymlinks < depth

inductive MediaError
  | http (exception : HTTPException)
  | path (error : PathError)
  deriving DecidableEq

def notFound : MediaError := .http { statusCode := 404, detail := "Not Found" }

def allowedExtensions : List String := [".mp4", ".mp3", ".webm", ".ogg", ".wav", ".m4a"]

/-- `suffix.lower() in ALLOWED_EXTENSIONS`. No character but the ASCII capitals has one of the
letters of the extensions as its lower case. -/
def allowed (name : String) : Bool :=
  allowedExtensions.any fun extension =>
    (suffix name.toList).map Char.toLower == extension.toList

/-- `PurePath.name`. -/
def lastName (path : Path) : String := path.getLast?.getD ""

def offers (svc : MediaService) : List String → Except PathError (List String)
  | [] => .ok []
  | entry :: rest => do
    let isFile ← svc.fs.isFile (svc.samplesDir ++ [entry])
    let names ← offers svc rest
    return if isFile && allowed entry then entry :: names else names

def listFiles (svc : MediaService) : Except PathError (List String) := do
  let isDir ← svc.fs.isDir svc.samplesDir
  if isDir then
    let names ← offers svc (svc.fs.iterdir svc.samplesDir)
    return names.insertionSort (· ≤ ·)
  else return []

def resolveSafePath (svc : MediaService) (filename : String) : Except MediaError Path :=
  if filename = "" ∨ '/' ∈ filename.toList ∨ '\\' ∈ filename.toList ∨ filename = "." ∨
      filename = ".." then .error notFound
  else
    match resolve svc.fs svc.depth (svc.samplesDir ++ [filename]) with
    | .error error => .error (.path error)
    | .ok candidate =>
      if ¬ candidate.isRelativeTo svc.samplesDir then .error notFound
      else if allowed (lastName candidate.parts) = false then .error notFound
      else
        match svc.fs.isFile candidate.parts with
        | .error error => .error (.path error)
        | .ok false => .error notFound
        | .ok true => .ok candidate.parts

def Offered (svc : MediaService) (filename : String) : Prop :=
  ∃ names, listFiles svc = .ok names ∧ filename ∈ names

def Servable (svc : MediaService) (filename : String) : Prop :=
  ∃ path, resolveSafePath svc filename = .ok path

/-- The name leads to a regular file, which is the entry itself or what a link of it leads to. -/
def IsAt (svc : MediaService) (filename : String) (target : Path) : Prop :=
  svc.fs.follow (svc.samplesDir ++ [filename]) = .ok target ∧ svc.fs.node target = some .file

/-- A path that is in the directory and whose own name has an allowed extension. -/
def InSamples (svc : MediaService) (target : Path) : Prop :=
  svc.samplesDir <+: target ∧ allowed (lastName target) = true

/-- Looking at every entry succeeds: no link has a name in its target that is too long. -/
def Listable (svc : MediaService) : Prop :=
  ∀ entry ∈ svc.fs.iterdir svc.samplesDir, ∃ b,
    svc.fs.isFile (svc.samplesDir ++ [entry]) = .ok b

/-- Where the list and the streams differ. -/
inductive Diverges (svc : MediaService) (filename : String) : Prop
  /-- A file with a backslash in its name, or a link to a file that lies elsewhere or has another
  extension. -/
  | unservable {target : Path} (listable : Listable svc) (at_target : IsAt svc filename target)
      (extension : allowed filename = true)
      (hidden : '\\' ∈ filename.toList ∨ ¬ InSamples svc target)
  /-- A link without extension to a file that has one, or any file when the list fails. -/
  | unlisted {target : Path} (plain : '\\' ∉ filename.toList) (at_target : IsAt svc filename target)
      (inside : InSamples svc target) (missing : allowed filename = false ∨ ¬ Listable svc)
  /-- A link that the kernel does not follow, and whose text can be read as a file's path. -/
  | broken {t : Target} {target : Path} (plain : '\\' ∉ filename.toList)
      (link : svc.fs.node (svc.samplesDir ++ [filename]) = some (.symlink t))
      (dangling : ∀ target, svc.fs.follow (svc.samplesDir ++ [filename]) ≠ .ok target)
      (read : resolve svc.fs svc.depth (svc.samplesDir ++ [filename]) = .ok ⟨false, target⟩)
      (inside : InSamples svc target) (file : svc.fs.isFile target = .ok true)

variable {svc : MediaService} {filename : String} {target : Path} {entries names : List String}

def passing (svc : MediaService) (entries : List String) : List String :=
  entries.filter fun entry =>
    decide (svc.fs.isFile (svc.samplesDir ++ [entry]) = .ok true) && allowed entry

lemma offers_eq_ok : offers svc entries = .ok names ↔
    (∀ entry ∈ entries, ∃ b, svc.fs.isFile (svc.samplesDir ++ [entry]) = .ok b) ∧
      passing svc entries = names := by
  induction entries generalizing names with
  | nil => simp [offers, passing]
  | cons entry rest ih =>
    unfold offers
    rw [List.forall_mem_cons]
    cases hfile : svc.fs.isFile (svc.samplesDir ++ [entry]) with
    | error error => simp [bind, Except.bind]
    | ok b =>
      cases hrest : offers svc rest with
      | error error =>
        simp only [bind, Except.bind, reduceCtorEq, false_iff]
        rintro ⟨⟨-, hall⟩, -⟩
        have hok : offers svc rest = .ok (passing svc rest) := ih.mpr ⟨hall, rfl⟩
        simp [hrest] at hok
      | ok found =>
        obtain ⟨hall, rfl⟩ := ih.mp hrest
        have hpassing : passing svc (entry :: rest) =
            if b && allowed entry then entry :: passing svc rest else passing svc rest := by
          simp [passing, List.filter_cons, hfile]
        simp only [bind, Except.bind, pure, Except.pure, Except.ok.injEq, hpassing]
        exact ⟨fun h => ⟨⟨⟨b, rfl⟩, hall⟩, h⟩, And.right⟩

lemma isDir_samplesDir : svc.fs.isDir svc.samplesDir = .ok true := by
  have hfollow := FileSystem.follow_solid (FileSystem.solid_of_isDirectory svc.isDirectory)
  simp [FileSystem.isDir, hfollow, svc.isDirectory]

lemma mem_iterdir : filename ∈ svc.fs.iterdir svc.samplesDir ↔
    svc.fs.node (svc.samplesDir ++ [filename]) ≠ none := by
  obtain ⟨entries, hnode⟩ := FileSystem.isDirectory_iff.mp svc.isDirectory
  simpa [FileSystem.iterdir, hnode] using svc.fs.mem_entries _ _ filename hnode

lemma IsAt.entry (h : IsAt svc filename target) :
    svc.fs.node (svc.samplesDir ++ [filename]) ≠ none :=
  FileSystem.entry_of_follow svc.isDirectory h.1 h.2

lemma offered_iff : Offered svc filename ↔
    Listable svc ∧ (∃ target, IsAt svc filename target) ∧ allowed filename = true := by
  have hlist : ∀ names, listFiles svc = .ok names ↔ ∃ found,
      offers svc (svc.fs.iterdir svc.samplesDir) = .ok found ∧
        names = found.insertionSort (· ≤ ·) := by
    intro names
    cases hoffers : offers svc (svc.fs.iterdir svc.samplesDir) <;>
      simp [listFiles, isDir_samplesDir, hoffers, bind, Except.bind, pure, Except.pure, eq_comm]
  constructor
  · rintro ⟨names, hnames, hmem⟩
    obtain ⟨found, hfound, rfl⟩ := (hlist names).mp hnames
    obtain ⟨hall, rfl⟩ := offers_eq_ok.mp hfound
    rw [List.mem_insertionSort, passing, List.mem_filter, Bool.and_eq_true,
      decide_eq_true_eq] at hmem
    exact ⟨hall, FileSystem.isFile_eq_true.mp hmem.2.1, hmem.2.2⟩
  · rintro ⟨hall, ⟨target, hat⟩, hallowed⟩
    refine ⟨_, (hlist _).mpr ⟨_, offers_eq_ok.mpr ⟨hall, rfl⟩, rfl⟩, ?_⟩
    rw [List.mem_insertionSort, passing, List.mem_filter, Bool.and_eq_true, decide_eq_true_eq]
    exact ⟨mem_iterdir.mpr hat.entry, FileSystem.isFile_eq_true.mpr ⟨target, hat⟩, hallowed⟩

def Flat (filename : String) : Prop :=
  filename ≠ "" ∧ '/' ∉ filename.toList ∧ filename ≠ "." ∧ filename ≠ ".."

lemma IsAt.flat (h : IsAt svc filename target) : Flat filename := by
  have hlegal := svc.fs.legal _ _ h.entry
  exact ⟨hlegal.nonempty, hlegal.no_slash, hlegal.not_dot, hlegal.not_dots⟩

lemma resolveSafePath_eq_ok : resolveSafePath svc filename = .ok target ↔
    Flat filename ∧ '\\' ∉ filename.toList ∧
      resolve svc.fs svc.depth (svc.samplesDir ++ [filename]) = .ok ⟨false, target⟩ ∧
      InSamples svc target ∧ svc.fs.isFile target = .ok true := by
  constructor
  · intro h
    unfold resolveSafePath at h
    split_ifs at h with hrefused
    cases hresolve : resolve svc.fs svc.depth (svc.samplesDir ++ [filename]) with
    | error error => simp [hresolve] at h
    | ok candidate =>
      simp only [hresolve] at h
      split_ifs at h with hinside hallowed
      obtain ⟨hroot, hwithin⟩ :
          candidate.doubleRoot = false ∧ svc.samplesDir <+: candidate.parts := by
        simpa [PurePath.isRelativeTo] using hinside
      cases hfile : svc.fs.isFile candidate.parts with
      | error error => simp [hfile] at h
      | ok b =>
        cases b with
        | false => simp [hfile] at h
        | true =>
          simp only [hfile, Except.ok.injEq] at h
          subst h
          simp only [not_or] at hrefused
          obtain ⟨hempty, hslash, hplain, hdot, hdots⟩ := hrefused
          exact ⟨⟨hempty, hslash, hdot, hdots⟩, hplain, by rw [← hroot],
            ⟨hwithin, by simpa using hallowed⟩, hfile⟩
  · rintro ⟨⟨hempty, hslash, hdot, hdots⟩, hplain, hresolve, ⟨hinside, hallowed⟩, hfile⟩
    simp [resolveSafePath, hempty, hslash, hplain, hdot, hdots, hresolve, PurePath.isRelativeTo,
      hinside, hallowed, hfile]

lemma servable_iff : Servable svc filename ↔ '\\' ∉ filename.toList ∧
    ((∃ target, IsAt svc filename target ∧ InSamples svc target) ∨
      (∀ target, svc.fs.follow (svc.samplesDir ++ [filename]) ≠ .ok target) ∧
        ∃ t target, svc.fs.node (svc.samplesDir ++ [filename]) = some (.symlink t) ∧
          resolve svc.fs svc.depth (svc.samplesDir ++ [filename]) = .ok ⟨false, target⟩ ∧
          InSamples svc target ∧ svc.fs.isFile target = .ok true) := by
  constructor
  · rintro ⟨target, hserved⟩
    obtain ⟨hflat, hplain, hresolve, hinside, hfile⟩ := resolveSafePath_eq_ok.mp hserved
    refine ⟨hplain, ?_⟩
    cases hfollow : svc.fs.follow (svc.samplesDir ++ [filename]) with
    | ok place =>
      have hplace := resolve_of_follow hfollow svc.deep
      obtain rfl : target = place := by
        rw [hresolve, Except.ok.injEq, PurePath.mk.injEq] at hplace
        exact hplace.2
      obtain ⟨place', hsame, hnode⟩ := FileSystem.isFile_eq_true.mp hfile
      rw [FileSystem.follow_solid (FileSystem.solid_of_follow hfollow), Except.ok.injEq] at hsame
      exact .inl ⟨target, ⟨hfollow, hsame ▸ hnode⟩, hinside⟩
    | error errno =>
      refine .inr ⟨by simp, ?_⟩
      by_contra hnone
      have hlink : ∀ t, svc.fs.node (svc.samplesDir ++ [filename]) ≠ some (.symlink t) :=
        fun t hnode => hnone ⟨t, target, hnode, hresolve, hinside, hfile⟩
      obtain ⟨-, hself⟩ := PurePath.mk.inj <| resolve_of_no_link svc.isDirectory
        ⟨hflat.1, hflat.2.2.1, hflat.2.2.2⟩ hlink hresolve
      obtain ⟨place, hplace, -⟩ := FileSystem.isFile_eq_true.mp hfile
      simp [hself, hfollow] at hplace
  · rintro ⟨hplain, ⟨target, hat, hinside⟩ | ⟨-, t, target, hnode, hresolve, hinside, hfile⟩⟩
    · have hsolid := FileSystem.solid_of_follow hat.1
      exact ⟨target, resolveSafePath_eq_ok.mpr ⟨hat.flat, hplain, resolve_of_follow hat.1 svc.deep,
        hinside, FileSystem.isFile_eq_true.mpr ⟨target, FileSystem.follow_solid hsolid, hat.2⟩⟩⟩
    · have hlegal := svc.fs.legal_of_node hnode
      exact ⟨target, resolveSafePath_eq_ok.mpr ⟨⟨hlegal.nonempty, hlegal.no_slash, hlegal.not_dot,
        hlegal.not_dots⟩, hplain, hresolve, hinside, hfile⟩⟩

lemma IsAt.unique {target' : Path} (h : IsAt svc filename target) (h' : IsAt svc filename target') :
    target = target' := by
  have hsame := h.1.symm.trans h'.1
  rwa [Except.ok.injEq] at hsame

/-- The list offers a name exactly if it can be streamed, but for the names where the entry and what
it leads to differ. -/
theorem offered_iff_servable (svc : MediaService) (filename : String) :
    (Offered svc filename ↔ Servable svc filename) ↔ ¬ Diverges svc filename := by
  rw [offered_iff, servable_iff]
  constructor
  · intro hagree hd
    cases hd with
    | unservable hlistable hat hextension hhidden =>
      obtain ⟨hplain, ⟨target, hat', hinside⟩ | ⟨hdangling, -⟩⟩ :=
        hagree.mp ⟨hlistable, ⟨_, hat⟩, hextension⟩
      · rw [hat.unique hat'] at hhidden
        exact hhidden.elim hplain fun hout => hout hinside
      · exact hdangling _ hat.1
    | unlisted hplain hat hinside hmissing =>
      obtain ⟨hlistable, -, hextension⟩ := hagree.mpr ⟨hplain, .inl ⟨_, hat, hinside⟩⟩
      rcases hmissing with hno | hno
      · simp [hextension] at hno
      · exact hno hlistable
    | broken hplain hlink hdangling hread hinside hfile =>
      obtain ⟨-, ⟨target, hat⟩, -⟩ :=
        hagree.mpr ⟨hplain, .inr ⟨hdangling, _, _, hlink, hread, hinside, hfile⟩⟩
      exact hdangling target hat.1
  · intro hno
    constructor
    · rintro ⟨hlistable, ⟨target, hat⟩, hextension⟩
      by_contra hunserved
      refine hno (.unservable hlistable hat hextension ?_)
      by_contra hvisible
      obtain ⟨hplain, hinside⟩ := not_or.mp hvisible
      exact hunserved ⟨hplain, .inl ⟨target, hat, not_not.mp hinside⟩⟩
    · rintro ⟨hplain, ⟨target, hat, hinside⟩ | ⟨hdangling, t, target, hlink, hread, hin, hfile⟩⟩
      · by_contra hunlisted
        refine hno (.unlisted hplain hat hinside ?_)
        by_contra hmissing
        obtain ⟨hextension, hlistable⟩ := not_or.mp hmissing
        exact hunlisted ⟨not_not.mp hlistable, ⟨target, hat⟩, by simpa using hextension⟩
      · exact absurd (.broken hplain hlink hdangling hread hin hfile) hno

def linkedNode : Path → Option Node
  | [] => some (.directory ["media", "srv"])
  | ["media"] => some (.directory ["clip.mp4"])
  | ["media", "clip.mp4"] => some (.symlink { absolute := true, components := ["srv", "clip.mp4"] })
  | ["srv"] => some (.directory ["clip.mp4"])
  | ["srv", "clip.mp4"] => some .file
  | _ => none

lemma linkedNode_append {path : Path} {name : String} : linkedNode (path ++ [name]) ≠ none ↔
    path = [] ∧ (name = "media" ∨ name = "srv") ∨ path = ["media"] ∧ name = "clip.mp4" ∨
      path = ["srv"] ∧ name = "clip.mp4" := by
  rcases path with _ | ⟨a, _ | ⟨b, rest⟩⟩
  · simp only [List.nil_append, linkedNode]
    split <;> simp_all
  · simp only [List.cons_append, List.nil_append, linkedNode]
    split <;> simp_all
  · cases rest <;> simp [linkedNode]

def linkedService : MediaService where
  fs := {
    node := linkedNode
    root := ⟨_, rfl⟩
    parent := by
      intro path name h
      rcases linkedNode_append.mp h with ⟨rfl, -⟩ | ⟨rfl, -⟩ | ⟨rfl, -⟩ <;> exact ⟨_, rfl⟩
    mem_entries := by
      intro path entries name h
      rw [linkedNode_append]
      unfold linkedNode at h
      split at h <;> simp_all <;> simp [← h]
    legal := by
      intro path name h
      rcases linkedNode_append.mp h with ⟨-, rfl | rfl⟩ | ⟨-, rfl⟩ | ⟨-, rfl⟩ <;>
        exact ⟨by decide, by decide, by decide, by decide, by decide, by decide⟩ }
  samplesDir := ["media"]
  isDirectory := rfl
  depth := 1000
  deep := by decide

/-- The link is in the list, and nobody can stream it. -/
theorem outsideLink_listed : Offered linkedService "clip.mp4" ∧
    resolveSafePath linkedService "clip.mp4" = .error notFound ∧
    ¬ (Offered linkedService "clip.mp4" ↔ Servable linkedService "clip.mp4") := by
  have hoffered : Offered linkedService "clip.mp4" := ⟨["clip.mp4"], by decide +kernel, by simp⟩
  have hrefused : resolveSafePath linkedService "clip.mp4" = .error notFound := by decide +kernel
  refine ⟨hoffered, hrefused, fun hagree => ?_⟩
  obtain ⟨path, hserved⟩ := hagree.mp hoffered
  simp [hrefused] at hserved

end AsyncDataHub.Media
