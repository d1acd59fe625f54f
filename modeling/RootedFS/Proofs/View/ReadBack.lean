import RootedFS.Proofs.Host.Inside
import RootedFS.Proofs.Host.ReadBack
import RootedFS.Proofs.Memory.ReadBack
import RootedFS.Proofs.View.Stack

/-!
# What is written is read, through any views

A view writes and reads whole files of its underlying filesystem. Whatever views there are between,
a file is read as it was written, in memory as on a host with links.

## Main definitions

* `FileSystem.Rests`: views upon a filesystem in memory or a host

## Main results

* `FileSystem.writeContent_view`, `FileSystem.readContent_view`: whole files through a view
* `FileSystem.readContent_writeContent`: what has been written is read, and in memory nothing else
  has changed
-/

namespace RootedFS.FileSystem

open Memory

variable {fs : FileSystem} {w w' : World} {path : String} {data : Bytes} {perm : Int}

theorem writeContent_view (u : FileSystem) (base path : String) (data : Bytes) (perm : Int) :
    (view u base).writeContent path data perm =
      u.writeContent (u.translate base path) data perm := by
  simp [writeContent, openFile, File.closing, File.write, File.close]

theorem readContent_view (u : FileSystem) (base path : String) :
    (view u base).readContent path = u.readContent (u.translate base path) := by
  simp [readContent, openRead, openFile, File.closing, File.read, File.close]

/-- Views, or none, upon the filesystem in memory on a store that calls lead to, or upon a directory
of the host. -/
inductive Rests (w : World) : FileSystem → Prop where
  | memory {m : Nat} {s : Store} (hm : w.stores[m]? = some s) (hs : Reachable s) :
    Rests w (.memory m .plain)
  | host (root : Key) (hfiled : w.host.Filed) : Rests w (.host root)
  | view {u : FileSystem} (h : Rests w u) (base : String) : Rests w (.view u base)

/-- A file that has been written is read as it was written, on a host if it gives that back. In
memory, the file and the directories that were missing on the way to it are all that writing has
changed. -/
theorem readContent_writeContent (h : Rests w fs)
    (hwrite : (fs.writeContent path data perm).run w = .ok () w')
    (hback : ∀ root, fs.ground = .host root → w'.host.GivesBack root (fs.reach path)) :
    (∃ w'', (fs.readContent path).run w' = .ok data w'') ∧
      ∀ m, fs.ground = .memory m .plain → ∃ s d, w.stores[m]? = some s ∧ w' = w.putDisk m d ∧
        Store.Overwritten (Key.resolve (fs.reach path)) data perm s d.store := by
  induction h generalizing path with
  | @memory m s hm hs =>
    obtain ⟨d, hd, hwritten, hread⟩ := exists_run_readContent_of_plain hm hs hwrite
    refine ⟨hread, ?_⟩
    rintro m' hground
    cases hground
    exact ⟨s, d, hm, hd, hwritten⟩
  | host root hfiled =>
    refine ⟨exists_run_readContent_of_host hfiled hwrite (hback root rfl), ?_⟩
    rintro m hground
    cases hground
  | @view u h base ih =>
    rw [writeContent_view] at hwrite
    rw [readContent_view]
    exact ih hwrite hback

/-- A host with a link `/srv/l` to the file `/srv/in/new`, which is missing, next to a store in
which a file `a` is open. -/
def danglingWorld : World where
  stores := [(after (Event.call (.create "a")).run ⟨.empty 0, 0, {}⟩).store]
  host.tree := ⟨[(["srv", "l"], .link "in/new"), (["srv", "in"], .directory 0o755),
    (["srv"], .directory 0o755), ([], .directory 0o755)]⟩

theorem filed_danglingWorld : danglingWorld.host.Filed := by
  intro k n hk
  simpa [danglingWorld] using Tree.mem_entries_of_get? hk

/-- Through two views, a file is written and read by way of a link to it that dangled before, and
another one in memory beyond missing directories. -/
theorem readContent_writeContent_dangling :
    let fs : FileSystem := .view (.view (.host ["srv"]) "..") "in/../l"
    let gs : FileSystem := .view (.view (.memory 0 .plain) "b/c") "..//d"
    Rests danglingWorld fs ∧ Rests danglingWorld gs ∧
      (∃ w', (fs.writeContent "" [1, 2] 0o600).run danglingWorld = .ok () w' ∧
        (∀ root, fs.ground = .host root → w'.host.GivesBack root (fs.reach "")) ∧
        ∃ w'', (fs.readContent "").run w' = .ok [1, 2] w'') ∧
      ∃ w', (gs.writeContent "e" [3] 0o600).run danglingWorld = .ok () w' ∧
        ∃ w'', (gs.readContent "e").run w' = .ok [3] w'' := by
  intro fs gs
  have hfs : Rests danglingWorld fs := ((Rests.host _ filed_danglingWorld).view _).view _
  have hgs : Rests danglingWorld gs :=
    ((Rests.memory rfl (.step (.new 0) 0 {} _)).view _).view _
  refine ⟨hfs, hgs, ?_, ?_⟩
  · have hrun : succeeds (fun _ w' => w'.host.GivesBack ["srv"] (fs.reach ""))
        ((fs.writeContent "" [1, 2] 0o600).run danglingWorld) = true := by decide +kernel
    obtain ⟨⟨⟩, w', hwrite, hgives⟩ := exists_of_succeeds hrun
    have hback : ∀ root, fs.ground = .host root → w'.host.GivesBack root (fs.reach "") := by
      rintro root hground
      cases hground
      exact of_decide_eq_true hgives
    exact ⟨w', hwrite, hback, (readContent_writeContent hfs hwrite hback).1⟩
  · have hrun : succeeds (fun _ _ => true) ((gs.writeContent "e" [3] 0o600).run danglingWorld) =
        true := by decide +kernel
    obtain ⟨⟨⟩, w', hwrite, -⟩ := exists_of_succeeds hrun
    exact ⟨w', hwrite, (readContent_writeContent hgs hwrite nofun).1⟩

/-- A host with a link `/srv/l` to a device that keeps nothing, and with a file `/srv/f` that its
owner may write and nobody may read. The caller is that owner. -/
def mutedWorld : World where
  host.tree := ⟨[([], .directory 0o755), (["dev"], .directory 0o755), (["dev", "null"], .file 0),
    (["srv"], .directory 0o755), (["srv", "l"], .link "/dev/null"), (["srv", "f"], .file 1)]⟩
  host.files := [⟨[], 0o666, .other, true, fun _ => rfl⟩, .owned [] 0o200]
  host.superuser := false

theorem filed_mutedWorld : mutedWorld.host.Filed := by
  intro k n hk
  have hmem := Tree.mem_entries_of_get? hk
  simp only [mutedWorld, List.mem_cons, Prod.mk.injEq, List.not_mem_nil, or_false] at hmem
  rcases hmem with ⟨-, h⟩ | ⟨-, h⟩ | ⟨-, h⟩ | ⟨-, h⟩ | ⟨-, h⟩ | ⟨-, h⟩ <;> cases h <;> decide

/-- What is written to a device may not be read from it, and what is written to a file without a
permission to read it may not be read at all. -/
theorem readContent_writeContent_muted :
    Rests mutedWorld (.host ["srv"]) ∧
      (∃ w', ((FileSystem.host ["srv"]).writeContent "l" [1] 0o644).run mutedWorld = .ok () w' ∧
        ∃ w'', ((FileSystem.host ["srv"]).readContent "l").run w' = .ok [] w'') ∧
      ∃ w', ((FileSystem.host ["srv"]).writeContent "f" [1] 0o644).run mutedWorld = .ok () w' ∧
        ∃ w'', ((FileSystem.host ["srv"]).readContent "f").run w' =
          .error (.onPath .forbidden "/srv/f") w'' := by
  have hdevice : succeeds (fun _ w' => succeeds (fun data _ => data = [])
      (((FileSystem.host ["srv"]).readContent "l").run w'))
      (((FileSystem.host ["srv"]).writeContent "l" [1] 0o644).run mutedWorld) = true := by
    decide +kernel
  have hfile : succeeds (fun _ w' => failsWith (.onPath .forbidden "/srv/f")
      (((FileSystem.host ["srv"]).readContent "f").run w'))
      (((FileSystem.host ["srv"]).writeContent "f" [1] 0o644).run mutedWorld) = true := by
    decide +kernel
  obtain ⟨⟨⟩, w', hwrite, hread⟩ := exists_of_succeeds hdevice
  obtain ⟨data, w'', hread, hdata⟩ := exists_of_succeeds hread
  obtain ⟨⟨⟩, w₁, hwrite₁, hread₁⟩ := exists_of_succeeds hfile
  rw [of_decide_eq_true hdata] at hread
  exact ⟨.host _ filed_mutedWorld, ⟨w', hwrite, w'', hread⟩, w₁, hwrite₁,
    exists_of_failsWith hread₁⟩

end RootedFS.FileSystem
