import RootedFS.Proofs.Calls
import RootedFS.Proofs.Host.Contents
import RootedFS.Proofs.Host.Walk

/-!
# What is written on the host is read there

A call that may make a file walks its path more narrowly than one that reads: it makes no file where
a directory is asked for. Wherever it succeeds, a later call for reading walks to the same file,
through whatever links, and finds there what was written.

## Main definitions

* `Host.Filed`: a host on which every entry that is a file leads to one
* `Host.Lasting`: a property that new directories do not take away
* `Host.GivesBack`: the file that a path leads to keeps what is written, and may be read

## Main results

* `Host.openFile_overwriting_ok`: what opening for overwriting leaves
* `exists_run_readContent_of_host`: a file is read as it was written
-/

namespace RootedFS

open Memory (run_bind_ok run_bind_error exists_of_run_bind)

namespace Host

open Rooted

variable {h h' : Host} {k : Key} {node : Node} {path : List String} {perm : Int} {n id : Nat}

/-- Every entry that is a file leads to one. -/
def Filed (h : Host) : Prop :=
  ∀ k n, h.tree.get? k = some (.file n) → n < h.files.length

theorem Filed.insert (hh : h.Filed) (hnode : ∀ n, node = .file n → n < h.files.length) :
    ({ h with tree := h.tree.insert k node } : Host).Filed := by
  intro j n hj
  change (h.tree.insert k node).get? j = _ at hj
  rw [Tree.get?_insert] at hj
  split at hj
  · exact hnode n (Option.some.inj hj)
  · exact hh j n hj

/-! ## Directories on the way -/

/-- A property of hosts that new directories do not take away, where nothing was before. -/
def Lasting (P : Host → Prop) : Prop :=
  ∀ h k perm, P h → h.tree.get? k = none →
    P { h with tree := h.tree.insert k (.directory perm) }

theorem lasting_filed : Lasting Filed := fun _ _ _ hfiled _ => hfiled.insert (by simp)

section

variable {P : Host → Prop}

/-- Making a directory changes a host only where it finds nothing. -/
theorem keeps_makeDirectory
    (hmake : ∀ h k name asDirectory, P h →
      walk .upTo h.tree path = .ok (.absent k name asDirectory) →
      P { h with tree := h.tree.insert (k ++ [name]) (.directory (withheld 0o1777 perm)) }) :
    Keeps P (makeDirectory path perm) := by
  refine (respects_requirePath path).bind fun _ => (respects_requireInt perm).bind fun _ =>
    Respects.get ?_
  rintro h _ ⟨rfl, hh⟩
  cases hwalk : walk .upTo h.tree path with
  | error why => exact .error ⟨rfl, hh⟩
  | ok found =>
    cases found with
    | entry k node => exact .error ⟨rfl, hh⟩
    | absent k name asDirectory => exact .ok ⟨rfl, hmake h k name asDirectory hh hwalk⟩

theorem keeps_ensureDirectory (hmake : Keeps P (makeDirectory path perm)) :
    Keeps P (ensureDirectory path perm) := by
  refine hmake.tryCatch fun f => Respects.get ?_
  rintro h _ ⟨rfl, hh⟩
  split
  · exact .ok ⟨rfl, hh⟩
  · exact .error ⟨rfl, hh⟩

/-- Directories are made along a path at its parts, and nowhere else. -/
theorem keeps_makeBackwards_of {back : List String}
    (hmake : ∀ way, way <+: back.reverse → ∀ p, p = perm ∨ p = defaultPerm →
      Keeps P (makeDirectory way p)) :
    Keeps P (makeBackwards back perm) := by
  induction back generalizing perm with
  | nil => exact keeps_ensureDirectory (hmake [] List.prefix_rfl perm (.inl rfl))
  | cons name back ih =>
    have hensure : Keeps P (ensureDirectory (name :: back).reverse perm) :=
      keeps_ensureDirectory (hmake _ List.prefix_rfl perm (.inl rfl))
    have hway : Keeps P (makeBackwards back defaultPerm) := by
      refine ih fun way hway p hp => hmake way ?_ p (.inr (hp.elim id id))
      rw [List.reverse_cons]
      exact hway.trans (List.prefix_append _ _)
    refine Respects.get ?_
    rintro h _ ⟨rfl, hh⟩
    split
    · exact hensure h h ⟨rfl, hh⟩
    · refine Together.bind ((hway.tryCatch fun f => ?_) h h ⟨rfl, hh⟩) fun _ => hensure
      split
      · exact .pure ()
      · exact .throw f

theorem Lasting.keeps_makeDirectory (hP : Lasting P) (path : List String) (perm : Int) :
    Keeps P (makeDirectory path perm) :=
  Host.keeps_makeDirectory fun h _ _ _ hh hwalk => hP h _ _ hh (get?_of_absent hwalk)

theorem keeps_makeBackwards (hP : Lasting P) (back : List String) (perm : Int) :
    Keeps P (makeBackwards back perm) :=
  keeps_makeBackwards_of fun way _ p _ => hP.keeps_makeDirectory way p

end

/-! ## Opening -/

theorem fitsInt_of_run_requireInt {n : Int} (hrun : (requireInt n).run h = .ok () h') :
    fitsInt n = true := by
  by_contra hn
  rw [requireInt, if_neg hn] at hrun
  cases hrun

theorem hasNull_of_run_requirePath (hrun : (requirePath path).run h = .ok () h') :
    hasNull (Key.toString path) = false := by
  by_contra hnull
  rw [requirePath, if_pos (Bool.not_eq_false _ ▸ hnull)] at hrun
  cases hrun

/-- A call for overwriting that succeeds leaves its file empty, where a call for reading walks to
it. -/
theorem openEntry_overwriting_ok {file : Option Nat} (hfiled : h.Filed)
    (hopen : (openEntry path .overwriting perm).run h = .ok file h') :
    ∃ k n, file = some n ∧ n < h'.files.length ∧ (h'.file n).content = [] ∧
      walk .through h'.tree path = .ok (.entry k (.file n)) := by
  obtain ⟨hpath, hperm⟩ : hasNull (Key.toString path) = false ∧ fitsInt perm = true := by
    obtain ⟨⟨⟩, h₁, hpath, hopen⟩ := exists_of_run_bind hopen
    obtain ⟨⟨⟩, h₂, -, hopen⟩ := exists_of_run_bind hopen
    obtain ⟨⟨⟩, h₃, hrequire, -⟩ := exists_of_run_bind hopen
    exact ⟨hasNull_of_run_requirePath hpath, fitsInt_of_run_requireInt hrequire⟩
  rw [run_openEntry hpath .overwriting (by decide) perm hperm, opening_overwriting] at hopen
  cases hwalk : walk ⟨true, true⟩ h.tree path with
  | error why =>
    rw [hwalk] at hopen
    cases hopen
  | ok found =>
    have hthrough := walk_of_forFile hwalk
    rw [hwalk] at hopen
    cases found with
    | entry k node =>
      cases node with
      | directory p => cases hopen
      | link target => cases hopen
      | file n =>
        have htruncate : OpenFlags.truncate .overwriting = true := by decide
        rw [run_bind_ok (run_onRoute_ok _ _ h)] at hopen
        cases hgrants : h.grants n .overwriting with
        | false =>
          simp only [hgrants] at hopen
          cases hopen
        | true =>
          simp only [hgrants, htruncate] at hopen
          cases hopen
          have hn := hfiled k n (get?_of_entry hwalk)
          have hfile := file_set_self hn ((h.file n).change [])
          refine ⟨k, n, rfl, ?_, ?_, hthrough⟩
          · exact (List.length_set ..).symm ▸ hn
          · exact (congrArg Regular.content hfile).trans (h.file n).content_change_nil
    | absent k name asDirectory =>
      obtain rfl := asDirectory_of_forFile rfl hwalk
      rw [run_bind_ok (run_onRoute_ok _ _ h)] at hopen
      cases hopen
      refine ⟨k ++ [name], _, rfl, ?_, congrArg Regular.content (file_append_length h _), ?_⟩
      · simp
      · have hextends := extends_insert (get?_of_absent hwalk) (.file h.files.length)
        exact walk_of_absent hextends (by simp) rfl (by simp) hthrough

/-- Opening for overwriting, where it succeeds, opens a stream for writing on an empty file, where a
call for reading walks to it. -/
theorem openFile_overwriting_ok {root : Key} {s : String} (hfiled : h.Filed)
    (hopen : (openFile root s .overwriting perm).run h = .ok id h') :
    ∃ k n, n < h'.files.length ∧ (h'.file n).content = [] ∧
      h'.streams[id]? = some (Stream.writing n) ∧
      walk .through h'.tree (route root s) = .ok (.entry k (.file n)) := by
  have hrun : (openFile root s .overwriting perm).run h = (do
      makeParents (route root s)
      let file ← openEntry (route root s) .overwriting perm
      openStream .overwriting file).run h := rfl
  rw [hrun] at hopen
  obtain ⟨⟨⟩, h₁, hparents, hopen⟩ := exists_of_run_bind hopen
  obtain ⟨file, h₂, hentry, hopen⟩ := exists_of_run_bind hopen
  have hfiled₁ := (keeps_makeBackwards lasting_filed _ _).of_run hfiled hparents
  obtain ⟨k, n, rfl, hn, hcontent, hwalk⟩ := openEntry_overwriting_ok hfiled₁ hentry
  rw [run_openStream, hcontent] at hopen
  cases hopen
  exact ⟨k, n, hn, hcontent, List.getElem?_concat_length, hwalk⟩

/-- A file that the walk leads to is opened for reading by a caller who may read it. -/
theorem openFile_reading_of_walk {root : Key} {s : String}
    (hwalk : walk .through h.tree (route root s) = .ok (.entry k (.file n)))
    (hpermits : h.permits (h.file n) .read = true) :
    (openFile root s .reading 0).run h =
      .ok h.streams.length { h with streams := h.streams ++ [Stream.reading n] } := by
  have hrun : (openFile root s .reading 0).run h = (do
      let file ← openEntry (route root s) .reading 0
      openStream .reading file).run h := rfl
  have hentry : (openEntry (route root s) .reading 0).run h = .ok (some n) h := by
    have hwalk' : walk ⟨true, false⟩ h.tree (route root s) = .ok (.entry k (.file n)) := hwalk
    have hgrants : h.grants n .reading = true := by
      rw [grants, hpermits]
      rfl
    rw [run_openEntry (hasNull_of_walk hwalk) .reading (by decide) 0 (by decide), opening_reading,
      hwalk', run_bind_ok (run_onRoute_ok _ _ h)]
    simp only [hgrants]
    rfl
  rw [hrun, run_bind_ok hentry, run_openStream]
  rfl

/-- The file that a path under a root leads to gives back what is written to it: it keeps that, and
the caller may read it. -/
def GivesBack (h : Host) (root : Key) (s : String) : Prop :=
  ∀ k n, lookup .through h.tree (route root s) = .ok (k, .file n) →
    (h.file n).sink = false ∧ h.permits (h.file n) .read = true

instance (h : Host) (root : Key) (s : String) : Decidable (h.GivesBack root s) :=
  match hlookup : lookup .through h.tree (route root s) with
  | .ok (_, .file n) =>
    decidable_of_iff ((h.file n).sink = false ∧ h.permits (h.file n) .read = true)
      (by simp [GivesBack, hlookup])
  | .ok (_, .directory _) => isTrue (by simp [GivesBack, hlookup])
  | .ok (_, .link _) => isTrue (by simp [GivesBack, hlookup])
  | .error _ => isTrue (by simp [GivesBack, hlookup])

end Host

/-- The file that a walk leads to is read. -/
theorem exists_run_readContent_of_walk {root k : Key} {w : World} {path : String} {n : Nat}
    (hn : n < w.host.files.length)
    (hwalk : Host.walk .through w.host.tree (Host.Rooted.route root path) =
      .ok (.entry k (.file n)))
    (hpermits : w.host.permits (w.host.file n) .read = true) :
    ∃ w', ((FileSystem.host root).readContent path).run w = .ok (w.host.file n).content w' := by
  obtain ⟨streams, hrun⟩ := exists_run_readContent_host
    (Host.openFile_reading_of_walk hwalk hpermits) hn List.getElem?_concat_length
  exact ⟨_, hrun⟩

/-- What has been written to a file of the host that gives it back is read from it. -/
theorem exists_run_readContent_of_host {root : Key} {w w' : World} {path : String} {data : Bytes}
    {perm : Int} (hfiled : w.host.Filed)
    (hwrite : ((FileSystem.host root).writeContent path data perm).run w = .ok () w')
    (hback : w'.host.GivesBack root path) :
    ∃ w'', ((FileSystem.host root).readContent path).run w' = .ok data w'' := by
  obtain ⟨f, w₁, hfile, -⟩ := exists_of_run_bind hwrite
  obtain ⟨id, w₂, hstream, -⟩ := exists_of_run_bind hfile
  obtain ⟨h, hopen, -⟩ := World.run_onHost_eq_ok_iff.1 hstream
  obtain ⟨k, n, hn, hempty, hwriting, hwalk⟩ := Host.openFile_overwriting_ok hfiled hopen
  obtain ⟨r, streams, hrun, hwritten⟩ := exists_run_writeContent_host hopen hn hwriting hempty data
  obtain ⟨-, rfl⟩ := EStateM.Result.ok.inj (hwrite.symm.trans hrun)
  have hset : ({ h with files := h.files.set n r, streams } : Host).file n = r :=
    Host.file_set_self hn r
  obtain ⟨hsink, hpermits⟩ := hback k n (by rw [Host.lookup, hwalk])
  obtain ⟨w'', hread⟩ := exists_run_readContent_of_walk (n := n)
    (w := { w with host := { h with files := h.files.set n r, streams } }) (by simpa using hn) hwalk
    hpermits
  rw [hset] at hsink
  change _ = EStateM.Result.ok
    (({ h with files := h.files.set n r, streams } : Host).file n).content _ at hread
  rw [hset, hwritten.content (hwritten.sink.symm.trans hsink)] at hread
  exact ⟨w'', hread⟩

end RootedFS
