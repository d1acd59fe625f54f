import RootedFS.Proofs.Host.Twins.Calls
import RootedFS.Proofs.Host.Twins.Streams
import RootedFS.Proofs.Session
import RootedFS.FileSystem.Symlink

/-!
# A directory of the host is closed

What a caller does with a directory of the host as a filesystem, and with the handles that it gives
out, stays in that directory, if directories lead to it and every symbolic link in it leads into it:
no entry outside is changed, the links stay so, and all answers are the same whatever there is
outside. A file that has one name in the directory and another outside is written by either.

## Main definitions

* `RootAct`, `RootSession`: what a caller does with a directory of the host, and the handles so far
* `TwinWorlds`, `TwinSessions`: two runs in worlds whose hosts are twins

## Main results

* `together_run`: an act does the same in twin worlds, and leaves twin worlds
* `TwinSessions.run`: so does a sequence of acts
* `Host.Sealed.confines`: a sealed directory is closed
* `strays`: a directory is not, where a file in it has a name outside or a directory on the way to
  it is missing
-/

namespace RootedFS

open World Host

/-! ## Sessions -/

/-- What a caller does with a directory of the host, or with one of the handles that it has. -/
inductive RootAct where
  | call (c : Call)
  | symlink (target link : String)
  | readlink (link : String)
  | use (file : Nat) (c : HandleCall)
  /-- Time passes, and with it the times that the host tells. -/
  | pass
deriving DecidableEq, Repr

/-- What an act answers. -/
inductive RootReply where
  | answer (a : Answer File)
  | text (s : String)
deriving DecidableEq

/-- The handles in a reply. -/
def RootReply.files : RootReply → List File
  | answer a => a.files
  | text _ => []

/-- A world with the handles that a caller has been given. -/
structure RootSession where
  world : World
  /-- The handles, in the order in which they were opened. -/
  files : List File := []

/-- Does an act; there are no handles but those that were given. -/
def RootAct.run (root : Key) (files : List File) : RootAct → WorldM RootReply
  | call c => return .answer (← (FileSystem.host root).perform c)
  | symlink target link => do
    (FileSystem.host root).symlink target link
    return .answer .done
  | readlink link => return .text (← (FileSystem.host root).readlink link)
  | use i c => do
    match files[i]? with
    | some f => return .answer (← f.use c)
    | none => throw (.closedHandle "")
  | pass => do
    onHost (modify fun h => { h with now := h.now + 1 })
    return .answer .done

/-- Temporary names are no paths, and targets of links are absolute. -/
def RootAct.Proper : RootAct → Prop
  | call (.createTemp _ lead) => '/' ∉ lead.toList
  | symlink target _ => Path.isAbsolute target = true
  | _ => True

namespace RootSession

/-- What an act comes to, and the session afterwards. -/
def step (root : Key) (σ : RootSession) (a : RootAct) : Except Fault RootReply × RootSession :=
  match (a.run root σ.files).run σ.world with
  | .ok r world => (.ok r, ⟨world, σ.files ++ r.files⟩)
  | .error f world => (.error f, { σ with world })

/-- What the acts of a sequence come to. -/
def outcomes (root : Key) (σ : RootSession) : List RootAct → List (Except Fault RootReply)
  | [] => []
  | a :: acts => (σ.step root a).1 :: (σ.step root a).2.outcomes root acts

/-- The session after a sequence of acts. -/
def after (root : Key) (σ : RootSession) (acts : List RootAct) : RootSession :=
  acts.foldl (fun σ a => (σ.step root a).2) σ

end RootSession

/-! ## Twin worlds -/

/-- Two worlds whose hosts are twins, with one supply of numbers. -/
structure TwinWorlds (root : Key) (b : Nat) (o o' : Host) (w w' : World) : Prop where
  host : Twins root b o o' w.host w'.host
  supply : w.supply = w'.supply

/-- A handle on a stream of the host that has at least the number `b`. -/
def File.Since (b : Nat) : File → Prop
  | .host id _ => b ≤ id
  | _ => False

/-- Twin worlds, in which handles have been given out. -/
def TwinsGiving (root : Key) (b : Nat) (o o' : Host) (files : List File) (w w' : World) : Prop :=
  TwinWorlds root b o o' w w' ∧ ∀ f ∈ files, f.Since b

section

variable {root : Key} {b : Nat} {o o' : Host} {w w' : World} {α : Type}

theorem together_onHost {act : HostM α} {Q : α → Host → Host → Prop}
    (hact : Together (Twins root b o o') Q (act.run w.host) (act.run w'.host))
    (hw : TwinWorlds root b o o' w w') :
    Together (TwinWorlds root b o o')
      (fun a v v' => Q a v.host v'.host ∧ v.supply = v'.supply)
      ((onHost act).run w) ((onHost act).run w') := by
  rw [run_onHost, run_onHost]
  generalize act.run w.host = r at hact
  generalize act.run w'.host = r' at hact
  cases hact with
  | ok h => exact .ok ⟨h, hw.supply⟩
  | error h => exact .error ⟨h, hw.supply⟩

theorem respects_onHost {act : HostM α} (hact : Respects (Twins root b o o') act) :
    Respects (TwinWorlds root b o o') (onHost act) :=
  fun _ _ hw => (together_onHost (hact _ _ hw.host) hw).imp fun _ _ _ h => ⟨h.1, h.2⟩

theorem respects_draw : Respects (TwinWorlds root b o o') draw := by
  intro w w' hw
  have hrun : draw.run w' = .ok w.supply.draw.1 { w' with supply := w.supply.draw.2 } := by
    rw [hw.supply]
    rfl
  rw [hrun]
  exact .ok ⟨hw.host, rfl⟩

theorem respects_notify (n : Notice) : Respects (TwinWorlds root b o o') (notify n) :=
  Respects.modify fun _ _ hw => ⟨hw.host, hw.supply⟩

/-! ## Calls -/

/-- A stream that is opened on the host is given out as a handle. -/
theorem together_giveStream {act : HostM Nat} {name : String}
    (hact : ∀ {h h'}, Twins root b o o' h h' →
      Together (Twins root b o o') (fun id h h' => Twins root b o o' h h' ∧ b ≤ id)
        (act.run h) (act.run h'))
    (hw : TwinWorlds root b o o' w w') :
    Together (TwinWorlds root b o o') (fun f => TwinsGiving root b o o' [f])
      ((do return File.host (← onHost act) name).run w)
      ((do return File.host (← onHost act) name).run w') :=
  (together_onHost (hact hw.host) hw).bind fun _ _ _ h =>
    .ok ⟨⟨h.1.1, h.2⟩, by simpa [File.Since] using h.1.2⟩

/-- The numbers of the supply are tried alike. -/
theorem together_firstFree {attempt : Int → WorldM α} {Q : α → World → World → Prop}
    (hattempt : ∀ {n w w'}, TwinWorlds root b o o' w w' →
      Together (TwinWorlds root b o o') Q ((attempt n).run w) ((attempt n).run w'))
    (count : Nat) (hw : TwinWorlds root b o o' w w') :
    Together (TwinWorlds root b o o') Q ((FileSystem.firstFree attempt count).run w)
      ((FileSystem.firstFree attempt count).run w') := by
  -- both worlds draw the same number, and go on only where both fail
  induction count generalizing w w' with
  | zero => exact .error hw
  | succ count ih =>
    refine (respects_draw w w' hw).bind fun n w w' hw => ?_
    refine (hattempt hw).tryCatch fun e w w' hw => ?_
    split
    · exact ih hw
    · exact .error hw

/-- What answers without a handle. -/
theorem together_answer {x : WorldM α} {f : α → Answer File} (hf : ∀ a, (f a).files = [])
    (hx : Respects (TwinWorlds root b o o') x) (hw : TwinWorlds root b o o' w w') :
    Together (TwinWorlds root b o o') (fun a => TwinsGiving root b o o' a.files)
      ((do return f (← x)).run w) ((do return f (← x)).run w') :=
  (hx w w' hw).bind fun a _ _ hw => .ok ⟨hw, by simp [hf a]⟩

/-- A call on a handle that was given out does the same in twin worlds. -/
theorem together_use {f : File} (hf : f.Since b) (c : HandleCall)
    (hw : TwinWorlds root b o o' w w') :
    Together (TwinWorlds root b o o') (fun a => TwinsGiving root b o o' a.files)
      ((f.use c).run w) ((f.use c).run w') := by
  cases f with
  | host id name =>
    have hstream : ∀ {β : Type} {act : StreamM β}, (∀ file r, Respects (Stream.OnFile file r) act) →
        Respects (TwinWorlds root b o o') (File.onStream id act) :=
      fun hact => respects_onHost (respects_onStream hact hf)
    cases c with
    | read size =>
      exact together_answer (fun _ => rfl) (hstream fun _ _ => Stream.respects_readBytes size) hw
    | write data =>
      exact together_answer (fun _ => rfl) (hstream fun _ _ => Stream.respects_writeBytes data) hw
    | seek offset origin =>
      exact together_answer (fun _ => rfl)
        ((hstream fun _ _ => Stream.respects_seek offset origin).bind fun _ => .pure _) hw
    | tell => exact together_answer (fun _ => rfl) (hstream fun _ _ => Stream.respects_tell) hw
    | truncate size =>
      exact together_answer (fun _ => rfl) (hstream fun _ _ => Stream.respects_truncate size) hw
    | flush => exact together_answer (fun _ => rfl) (hstream fun _ _ => Stream.respects_flush) hw
    | close =>
      exact together_answer (fun _ => rfl)
        ((hstream fun _ _ => Stream.respects_close).bind fun _ => .pure _) hw
  | memory store handle name => cases hf
  | recorder id => cases hf
  | renamed name inner => cases hf

variable (hroot : ∀ a ∈ root, Path.IsName a)
include hroot

theorem together_openFile_host (path : String) (flags : OpenFlags) (perm : Int)
    (hw : TwinWorlds root b o o' w w') :
    Together (TwinWorlds root b o o') (fun f => TwinsGiving root b o o' [f])
      (((FileSystem.host root).openFile path flags perm).run w)
      (((FileSystem.host root).openFile path flags perm).run w') :=
  together_giveStream (Rooted.together_openFile hroot path flags perm) hw

theorem together_createTemp_host (directory : String) {lead : String} (hlead : '/' ∉ lead.toList)
    (hw : TwinWorlds root b o o' w w') :
    Together (TwinWorlds root b o o') (fun f => TwinsGiving root b o o' [f])
      (((FileSystem.host root).createTemp directory lead).run w)
      (((FileSystem.host root).createTemp directory lead).run w') := by
  have hmake : Respects (TwinWorlds root b o o')
      (onHost (Rooted.makeDirectories root directory Rooted.defaultPerm)) :=
    respects_onHost (Rooted.respects_makeDirectories hroot directory _)
  refine (hmake w w' hw).bind fun _ w w' hw => ?_
  refine Together.bind (Q := fun f => fun w w' => TwinWorlds root b o o' w w' ∧ b ≤ f.1) ?_
    fun f w w' h => .ok ⟨h.1, by simpa [File.Since] using h.2⟩
  refine together_firstFree (fun {n w w'} hw => ?_) FileSystem.hostAttempts hw
  refine (together_onHost (Rooted.together_openTemp hroot directory hlead n hw.host) hw).imp ?_
  exact fun f w w' h => ⟨⟨h.1.1, h.2⟩, h.1.2⟩

/-- A call on the directory does the same in twin worlds. -/
theorem together_perform (c : Call) (hproper : (RootAct.call c).Proper)
    (hw : TwinWorlds root b o o' w w') :
    Together (TwinWorlds root b o o') (fun a => TwinsGiving root b o o' a.files)
      (((FileSystem.host root).perform c).run w) (((FileSystem.host root).perform c).run w') := by
  cases c with
  | create path =>
    exact (together_openFile_host hroot path _ _ hw).bind fun _ _ _ h => .ok h
  | openRead path =>
    exact (together_openFile_host hroot path _ _ hw).bind fun _ _ _ h => .ok h
  | openFile path flags perm =>
    exact (together_openFile_host hroot path flags perm hw).bind fun _ _ _ h => .ok h
  | createTemp directory lead =>
    exact (together_createTemp_host hroot directory hproper hw).bind fun _ _ _ h => .ok h
  | rename path target =>
    exact together_answer (fun _ => rfl)
      (respects_onHost (Rooted.respects_rename hroot path target)) hw
  | remove path =>
    exact together_answer (fun _ => rfl) (respects_onHost (Rooted.respects_remove hroot path)) hw
  | makeDirectories path perm =>
    exact together_answer (fun _ => rfl)
      (respects_onHost (Rooted.respects_makeDirectories hroot path perm)) hw
  | stat path =>
    exact together_answer (fun _ => rfl)
      ((respects_onHost (Rooted.respects_stat hroot path)).bind fun _ => .pure _) hw
  | list path =>
    exact together_answer (fun _ => rfl)
      ((respects_onHost (Rooted.respects_list hroot path)).bind fun _ => .pure _) hw

theorem respects_symlink_host {target : String} (htarget : Path.isAbsolute target = true)
    (link : String) :
    Respects (TwinWorlds root b o o') ((FileSystem.host root).symlink target link) :=
  respects_onHost (Rooted.respects_symlink hroot htarget link)

theorem respects_readlink_host (link : String) :
    Respects (TwinWorlds root b o o') ((FileSystem.host root).readlink link) := by
  refine (respects_onHost (Rooted.respects_readlink hroot link)).bind fun target => ?_
  split
  · exact .pure _
  · split
    · exact .pure _
    · exact (respects_notify _).bind fun _ => .pure _

/-! ## Runs -/

/-- An act does the same in twin worlds. -/
theorem together_run {files : List File} (hfiles : ∀ f ∈ files, f.Since b) (a : RootAct)
    (hproper : a.Proper) (hw : TwinWorlds root b o o' w w') :
    Together (TwinWorlds root b o o') (fun r => TwinsGiving root b o o' r.files)
      ((a.run root files).run w) ((a.run root files).run w') := by
  cases a with
  | call c =>
    exact (together_perform hroot c hproper hw).bind fun _ _ _ h => .ok h
  | symlink target link =>
    exact (respects_symlink_host hroot hproper link w w' hw).bind fun _ _ _ hw =>
      .ok ⟨hw, by simp [RootReply.files, Answer.files]⟩
  | readlink link =>
    exact (respects_readlink_host hroot link w w' hw).bind fun _ _ _ hw =>
      .ok ⟨hw, by simp [RootReply.files]⟩
  | use i c =>
    rw [RootAct.run]
    cases hf : files[i]? with
    | none => exact .error hw
    | some f =>
      exact (together_use (hfiles f (List.mem_of_getElem? hf)) c hw).bind fun _ _ _ h => .ok h
  | pass =>
    have hpass : Respects (Twins root b o o') (modify fun h => { h with now := h.now + 1 }) :=
      fun _ _ ht => .ok ht.pass
    exact (respects_onHost hpass w w' hw).bind fun _ _ _ hw =>
      .ok ⟨hw, by simp [RootReply.files, Answer.files]⟩

end

/-- Two sessions in twin worlds, with the same handles. -/
structure TwinSessions (root : Key) (b : Nat) (o o' : Host) (σ σ' : RootSession) : Prop where
  world : TwinWorlds root b o o' σ.world σ'.world
  files : σ.files = σ'.files
  since : ∀ f ∈ σ.files, f.Since b

namespace TwinSessions

variable {root : Key} {b : Nat} {o o' : Host} {σ σ' : RootSession}

/-- An act comes to the same in twin sessions, and leaves twin sessions. -/
theorem step (h : TwinSessions root b o o' σ σ') {a : RootAct} (hproper : a.Proper) :
    (σ.step root a).1 = (σ'.step root a).1 ∧
      TwinSessions root b o o' (σ.step root a).2 (σ'.step root a).2 := by
  have hrun := together_run h.world.host.left.names h.since a hproper h.world
  have hfiles := h.files
  rw [RootSession.step, RootSession.step, ← hfiles]
  generalize (a.run root σ.files).run σ.world = r at hrun
  generalize (a.run root σ.files).run σ'.world = r' at hrun
  cases hrun with
  | ok hout =>
    refine ⟨rfl, hout.1, rfl, fun f hf => ?_⟩
    rcases List.mem_append.1 hf with hf | hf
    · exact h.since f hf
    · exact hout.2 f hf
  | error hw => exact ⟨rfl, hw, rfl, h.since⟩

/-- A sequence of acts comes to the same in twin sessions, and leaves twin sessions. -/
theorem run (h : TwinSessions root b o o' σ σ') {acts : List RootAct}
    (hproper : ∀ a ∈ acts, a.Proper) :
    σ.outcomes root acts = σ'.outcomes root acts ∧
      TwinSessions root b o o' (σ.after root acts) (σ'.after root acts) := by
  induction acts generalizing σ σ' with
  | nil => exact ⟨rfl, h⟩
  | cons a acts ih =>
    obtain ⟨hout, hstep⟩ := h.step (hproper a List.mem_cons_self)
    obtain ⟨houts, hafter⟩ := ih hstep fun a' ha => hproper a' (List.mem_cons_of_mem a ha)
    rw [RootSession.outcomes, RootSession.outcomes, hout, houts]
    exact ⟨rfl, hafter⟩

end TwinSessions

/-! ## Confinement -/

/-- A directory of the host to which directories lead and in which every link leads into it is
closed. Whatever a caller does with it, the entries outside stay as they are, with their files,
unless these have names inside, and links go on leading into it; and all comes to the same on every
host that is the same inside, whatever it has outside. -/
theorem Host.Sealed.confines {root : Key} {w : World} (hs : w.host.Sealed root)
    (acts : List RootAct) (hproper : ∀ a ∈ acts, a.Proper) :
    w.host.Untouched root (RootSession.after root { world := w } acts).world.host ∧
      (RootSession.after root { world := w } acts).world.host.Sealed root ∧
      ∀ w' : World, w'.host.Sealed root → w.host.Alike root w'.host → w.supply = w'.supply →
        RootSession.outcomes root { world := w } acts =
            RootSession.outcomes root { world := w' } acts ∧
          (RootSession.after root { world := w } acts).world.host.Alike root
            (RootSession.after root { world := w' } acts).world.host := by
  have hrun : ∀ w' : World, w'.host.Sealed root → w.host.Alike root w'.host →
      w.supply = w'.supply → RootSession.outcomes root { world := w } acts =
          RootSession.outcomes root { world := w' } acts ∧
        TwinSessions root w.host.streams.length w.host w'.host
          (RootSession.after root { world := w } acts)
          (RootSession.after root { world := w' } acts) := by
    intro w' hs' halike hsupply
    have hworld : TwinWorlds root w.host.streams.length w.host w'.host w w' :=
      ⟨.of_sealed hs hs' halike, hsupply⟩
    have hsession : TwinSessions root w.host.streams.length w.host w'.host { world := w }
        { world := w' } := ⟨hworld, rfl, by simp⟩
    exact hsession.run hproper
  -- a host is its own twin
  have hself := (hrun w hs (.refl root w.host) rfl).2.world.host
  refine ⟨hself.untouched, hself.sealed, fun w' hs' halike hsupply => ?_⟩
  obtain ⟨hout, hafter⟩ := hrun w' hs' halike hsupply
  exact ⟨hout, hafter.world.host.alike⟩

/-- What leads to an entry under the top, and is not the entry, is the top. -/
theorem Key.eq_nil_of_prefix {k : Key} {a : String} (hk : k <+: [a]) (hne : k ≠ [a]) : k = [] :=
  List.prefix_nil.1 ((List.prefix_concat_iff.1 hk).resolve_left hne)

/-- A world with a directory `/srv`, in which a link leads to `/srv/data`, and with a secret next to
it. -/
def vault (secret : Bytes) : World where
  host := {
    tree := ⟨[([], .directory 0o755), (["srv"], .directory 0o755), (["etc"], .directory 0o700),
      (["srv", "data"], .directory 0o755), (["srv", "data", "f"], .file 0),
      (["srv", "l"], .link "/srv/data"), (["etc", "secret"], .file 1)]⟩
    files := [.owned [1, 2] 0o644, .owned secret 0o600] }

theorem sealed_vault (secret : Bytes) : (vault secret).host.Sealed ["srv"] where
  names := by
    have hkey : Key.resolve "srv" = ["srv"] := by decide +kernel
    exact hkey ▸ Path.isName_resolve "srv"
  way := by
    intro k hk hne
    rw [Key.eq_nil_of_prefix hk hne]
    exact ⟨0o755, rfl⟩
  straight := fun k node hk hin =>
    (by decide : ∀ e ∈ (vault []).host.tree.entries, Key.within ["srv"] e.1 = true → Straight e.1)
      (k, node) hk hin
  inward := by
    intro k target hk _
    have htarget : target = "/srv/data" := (by simpa [vault] using hk : _ ∧ _).2
    rw [htarget]
    decide +kernel
  filed := by
    intro k n hk
    have hn : n = 0 ∨ n = 1 := (by simpa [vault] using hk : _ ∧ _ ∨ _ ∧ _).imp And.right And.right
    rcases hn with rfl | rfl
    · exact Nat.zero_lt_two
    · exact Nat.one_lt_two

/-- Vaults with different secrets are the same inside. -/
theorem alike_vault (secret secret' : Bytes) :
    (vault secret).host.Alike ["srv"] (vault secret').host where
  inside := rfl
  files := by
    intro k n hk
    obtain ⟨hk, hin⟩ := mem_inside.1 hk
    have hn : k = ["srv", "data", "f"] ∧ n = 0 ∨ k = ["etc", "secret"] ∧ n = 1 := by
      simpa [vault] using hk
    rcases hn with ⟨-, rfl⟩ | ⟨rfl, -⟩
    · rfl
    · cases hin
  files_length := rfl
  streams_length := rfl
  superuser := rfl
  now := rfl
  dates _ _ _ := rfl

/-- A file is written through a link, and a link is made whose target has a `..`, and read. -/
def vaultActs : List RootAct :=
  [.call (.create "../l//g"), .use 0 (.write [3]), .use 0 .close, .pass,
    .symlink "/../etc/secret" "m", .call (.openRead "m"), .readlink "m", .call (.list "/..")]

theorem confines_vault :
    (∀ a ∈ vaultActs, a.Proper) ∧ (vault [7]).host.Sealed ["srv"] ∧
      (vault [7]).host.Untouched ["srv"]
        (RootSession.after ["srv"] { world := vault [7] } vaultActs).world.host ∧
      (RootSession.after ["srv"] { world := vault [7] } vaultActs).world.host.Sealed ["srv"] ∧
      RootSession.outcomes ["srv"] { world := vault [7] } vaultActs =
        RootSession.outcomes ["srv"] { world := vault [] } vaultActs := by
  have hproper : ∀ a ∈ vaultActs, a.Proper := by
    have habsolute : Path.isAbsolute "/../etc/secret" = true := by decide
    simp [vaultActs, RootAct.Proper, habsolute]
  obtain ⟨huntouched, hsealed, halike⟩ := (sealed_vault [7]).confines vaultActs hproper
  exact ⟨hproper, sealed_vault [7], huntouched, hsealed,
    (halike (vault []) (sealed_vault []) (alike_vault [7] []) rfl).1⟩

/-- A world with a file that is both `/srv/f` and `/etc/f`. -/
def doorWorld : World where
  host.tree := ⟨[([], .directory 0o755), (["srv"], .directory 0o755), (["etc"], .directory 0o755),
    (["srv", "f"], .file 0), (["etc", "f"], .file 0)]⟩
  host.files := [.owned [1] 0o644]

theorem sealed_doorWorld : doorWorld.host.Sealed ["srv"] where
  names := (sealed_vault []).names
  way := by
    intro k hk hne
    rw [Key.eq_nil_of_prefix hk hne]
    exact ⟨0o755, rfl⟩
  straight := fun k node hk hin =>
    (by decide : ∀ e ∈ doorWorld.host.tree.entries, Key.within ["srv"] e.1 = true → Straight e.1)
      (k, node) hk hin
  inward := by
    intro k target hk _
    simp [doorWorld] at hk
  filed := by
    intro k n hk
    have hn : n = 0 := (by simpa [doorWorld] using hk : _ ∧ _ ∨ _ ∧ _).elim And.right And.right
    rw [hn]
    exact Nat.zero_lt_one

/-- A world whose host has nothing but its top. -/
def bareWorld : World where
  host.tree := ⟨[([], .directory 0o755)]⟩

/-- Two entries outside that do not stay as they are: a file that is written by its other name,
which is inside, and a directory on the way to a root, which is made where it was missing. -/
theorem strays :
    (doorWorld.host.Sealed ["srv"] ∧ Key.within ["srv"] ["etc", "f"] = false ∧
      doorWorld.host.items [] ["etc", "f"] = some (.file [1]) ∧
      (RootSession.after ["srv"] { world := doorWorld }
        [.call (.create "f"), .use 0 (.write [2]), .use 0 .close]).world.host.items []
          ["etc", "f"] = some (.file [2])) ∧
    (∀ k target, (k, Node.link target) ∉ bareWorld.host.tree.entries) ∧
      Key.within ["srv", "d"] ["srv"] = false ∧ bareWorld.host.items [] ["srv"] = none ∧
      (RootSession.after ["srv", "d"] { world := bareWorld }
        [.call (.makeDirectories "a" 0o777)]).world.host.items [] ["srv"] = some .directory := by
  refine ⟨⟨sealed_doorWorld, by decide, by decide +kernel, by decide +kernel⟩, ?_, by decide,
    by decide +kernel, by decide +kernel⟩
  intro k target hk
  simp [bareWorld] at hk

end RootedFS
