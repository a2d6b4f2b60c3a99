import BtbuOs.Fs.Directory
import BtbuOs.Fs.FileBytes

namespace BtbuOs.Fs

open Bytes Machine Ownership State

/-- The panic of `bfree`. -/
def freeingFree : String := "freeing free block"

section Errors

variable {sb : Superblock} {s mid : State} {ip dp : InodeIx} {d i inum n off rounds : Nat} {room : Room} {src dst name : Memory} {message : String}

theorem loop_error (failed : message = "balloc: out of blocks" ∨ message = "bmap: out of range") : message ≠ freeingFree := by
  rcases failed with rfl | rfl <;> decide

theorem readi_error (failed : readi sb s ip room dst off n = .error message) : message ≠ freeingFree := by
  unfold readi at failed
  split at failed
  · contradiction
  · exact loop_error (readLoop_error failed)

theorem writei_error (failed : writei sb s ip src room off n = .error message) : message ≠ freeingFree := by
  unfold writei at failed
  split at failed
  · contradiction
  · split at failed
    · contradiction
    · split at failed
      · rename_i stopped
        cases failed
        exact loop_error (writeLoop_error stopped)
      · contradiction

theorem iget_error (failed : iget s inum = .error message) : message ≠ freeingFree := by
  unfold iget at failed
  split at failed
  · contradiction
  · split at failed
    · cases failed
      decide
    · contradiction

theorem ialloc_error {type : Nat} (failed : ialloc sb s type = .error message) : message ≠ freeingFree := by
  unfold ialloc at failed
  split at failed
  · cases failed
    decide
  · exact iget_error failed

theorem ivalid_error (failed : ivalid sb s ip = .error message) : message ≠ freeingFree := by
  unfold ivalid at failed
  split at failed
  · contradiction
  · dsimp only at failed
    split at failed
    · cases failed
      decide
    · contradiction

theorem findEntry_error (failed : findEntry sb dp name rounds s off = .error message) : message ≠ freeingFree := by
  induction rounds generalizing s off with
  | zero => contradiction
  | succ rounds ih =>
      rw [findEntry] at failed
      split at failed
      · split at failed
        · rename_i stopped
          cases failed
          exact readi_error stopped
        · split at failed
          · cases failed
            decide
          · split at failed
            · exact ih failed
            · split at failed
              · split at failed
                · rename_i stopped
                  cases failed
                  exact iget_error stopped
                · contradiction
              · exact ih failed
      · contradiction

theorem dirlookup_error (failed : dirlookup sb s dp name = .error message) : message ≠ freeingFree := by
  unfold dirlookup at failed
  split at failed
  · cases failed
    decide
  · exact findEntry_error failed

theorem emptyEntry_error (failed : emptyEntry sb dp rounds s off = .error message) : message ≠ freeingFree := by
  induction rounds generalizing s off with
  | zero => contradiction
  | succ rounds ih =>
      rw [emptyEntry] at failed
      split at failed
      · split at failed
        · rename_i stopped
          cases failed
          exact readi_error stopped
        · split at failed
          · cases failed
            decide
          · split at failed
            · contradiction
            · exact ih failed
      · contradiction

theorem dirlink_error (sound : Sound sb s) (live : Live s dp d) (failed : dirlink sb s dp name inum = .error message) :
    message ≠ freeingFree := by
  rcases bind_error.mp failed with stopped | ⟨⟨result, looked⟩, found, rest⟩
  · exact dirlookup_error stopped
  · obtain ⟨-, mid, -, -, cases⟩ := dirlookup_cases sound live found
    rcases cases with ⟨rfl, -, -⟩ | ⟨ip, o, rfl, -, got⟩
    · rcases bind_error.mp rest with stopped | ⟨⟨o, last⟩, -, rest⟩
      · exact emptyEntry_error stopped
      · rcases bind_error.mp rest with stopped | ⟨⟨count, final⟩, -, rest⟩
        · exact writei_error stopped
        · dsimp only at rest
          split at rest
          · cases rest
            decide
          · contradiction
    · obtain ⟨last, given, -⟩ := iput_iget sb got
      rcases bind_error.mp rest with stopped | ⟨final, -, rest⟩
      · rw [given] at stopped
        contradiction
      · contradiction

theorem dirunlink_error (sound : Sound sb s) (live : Live s dp d) (failed : dirunlink sb s dp name = .error message) :
    message ≠ freeingFree := by
  rcases bind_error.mp failed with stopped | ⟨⟨result, looked⟩, found, rest⟩
  · exact dirlookup_error stopped
  · obtain ⟨-, mid, -, -, cases⟩ := dirlookup_cases sound live found
    rcases cases with ⟨rfl, -, -⟩ | ⟨ip, o, rfl, -, got⟩
    · contradiction
    · obtain ⟨last, given, -⟩ := iput_iget sb got
      rcases bind_error.mp rest with stopped | ⟨final, -, rest⟩
      · rw [given] at stopped
        contradiction
      · rcases bind_error.mp rest with stopped | ⟨⟨count, written⟩, -, rest⟩
        · exact writei_error stopped
        · dsimp only at rest
          split at rest
          · cases rest
            decide
          · contradiction

end Errors

/-- The calls into the file system; `setLinks` is the change of a link count with the `iupdate` behind it, and `recycle` reuses a released buffer. -/
inductive Action where
  | writei (ip : InodeIx) (src : Memory) (room : Room) (off n : Nat)
  | readi (ip : InodeIx) (room : Room) (dst : Memory) (off n : Nat)
  | itrunc (ip : InodeIx)
  | ialloc (type : Nat)
  | iget (inum : Nat)
  | ivalid (ip : InodeIx)
  | idup (ip : InodeIx)
  | iput (ip : InodeIx)
  | setLinks (ip : InodeIx) (nlink : Nat)
  | dirlink (dp : InodeIx) (name : Memory) (inum : Nat)
  | dirunlink (dp : InodeIx) (name : Memory)
  | recycle (b : Nat)

variable (sb : Superblock)

def perform (s : State) : Action → Except String State
  | .writei ip src room off n => do
      let (_, s) ← writei sb s ip src room off n
      .ok s
  | .readi ip room dst off n => do
      let (_, _, s) ← readi sb s ip room dst off n
      .ok s
  | .itrunc ip => itrunc sb s ip
  | .ialloc type => do
      let (_, s) ← ialloc sb s type
      .ok s
  | .iget inum => do
      let (_, s) ← iget s inum
      .ok s
  | .ivalid ip => ivalid sb s ip
  | .idup ip => .ok (idup s ip)
  | .iput ip => iput sb s ip
  | .setLinks ip nlink => .ok (iupdate sb (s.setInode ip { s.itable ip with nlink }) ip)
  | .dirlink dp name inum => do
      let (_, s) ← dirlink sb s dp name inum
      .ok s
  | .dirunlink dp name => do
      let (_, s) ← dirunlink sb s dp name
      .ok s
  | .recycle b => .ok (s.recycle b)

/-- A call runs to its end or to a panic, and nothing runs after a panic; the trace lists the calls. -/
def blockStep : Machine.Step (Except String State) Action Action
  | .error _, _ => none
  | .ok s, action => some (perform sb s action, [action])

/-- The caller has a reference to the inode and has read it from the disk. -/
def Held (s : State) (ip : InodeIx) : Prop := 0 < (s.itable ip).ref ∧ (s.itable ip).valid = true

instance (s : State) (ip : InodeIx) : Decidable (Held s ip) := inferInstanceAs (Decidable (_ ∧ _))

/-- What the callers of a function keep to: they have a reference, they call `ivalid` before they use the fields, and the number is that of an inode. -/
def Allowed (s : State) : Action → Prop
  | .writei ip _ _ _ _ | .readi ip _ _ _ _ | .itrunc ip | .setLinks ip _ | .dirlink ip _ _ | .dirunlink ip _ => Held s ip
  | .ivalid ip => 0 < (s.itable ip).ref ∧ (s.itable ip).inum < sb.ninodes
  | .idup ip | .iput ip => 0 < (s.itable ip).ref
  | .ialloc _ | .iget _ | .recycle _ => True

instance (s : State) (action : Action) : Decidable (Allowed sb s action) := by
  cases action <;> unfold Allowed <;> infer_instance

def BlockGuard (state : Except String State) (_ : List Action) (action : Action) : Prop :=
  ∀ s ∈ state.toOption, Allowed sb s action

instance (state : Except String State) (trace : List Action) (action : Action) : Decidable (BlockGuard sb state trace action) :=
  inferInstanceAs (Decidable (∀ s ∈ state.toOption, Allowed sb s action))

/-- The disk after a boot is an image whose free map marks the metadata and every block that an inode refers to, each from one place. -/
structure Image (s : State) : Prop where
  valid : sb.Valid
  idle : ∀ ip, (s.itable ip).ref = 0
  clean : Clean s
  taken : s.taken = []
  owned : Owned (dataStart sb) sb.size (inUse sb s) (pointer sb s)

def Booted (state : Except String State) : Prop := ∃ s, state = .ok s ∧ Image sb s

variable {sb : Superblock} {s after : State} {ip : InodeIx} {action : Action} {trace : List Action}

theorem Image.sound (image : Image sb s) : Sound sb s := by
  have never (ip : InodeIx) : ¬0 < (s.itable ip).ref := by
    rw [image.idle ip]
    exact Int.lt_irrefl 0
  constructor
  · exact image.valid
  · exact fun ip _ first => absurd first (never ip)
  · exact fun ip _ live => absurd live.1 (never ip)
  · exact fun ip _ live => absurd live.1 (never ip)
  · exact image.owned
  · exact fun b _ => image.clean b
  · exact fun _ _ _ => image.clean _
  · rw [image.taken]
    exact fun call member => absurd member List.not_mem_nil

theorem Held.live (held : Held s ip) : Live s ip (s.itable ip).inum := ⟨held.1, held.2, rfl⟩

theorem dropped {First : Type} {first : Except String First} {next : First → State}
    (done : (first >>= fun value => .ok (next value)) = .ok after) : ∃ value, first = .ok value ∧ next value = after := by
  obtain ⟨value, got, rest⟩ := bind_ok.mp done
  exact ⟨value, got, by cases rest; rfl⟩

/-- Every call keeps the invariant. -/
theorem perform_sound (sound : Sound sb s) (allowed : Allowed sb s action) (done : perform sb s action = .ok after) : Sound sb after := by
  cases action with
  | writei ip src room off n =>
      obtain ⟨⟨value, last⟩, got, rfl⟩ := dropped done
      exact writei_sound sound allowed.live got
  | readi ip room dst off n =>
      obtain ⟨⟨value, data, last⟩, got, rfl⟩ := dropped done
      exact (readi_grown sound allowed.live got).1
  | itrunc ip =>
      obtain ⟨last, got, truncated⟩ := itrunc_total sound allowed.live
      rw [perform, got] at done
      cases done
      exact truncated.sound sound allowed.live
  | ialloc type =>
      obtain ⟨⟨jp, last⟩, got, rfl⟩ := dropped done
      exact sound.ialloc got
  | iget inum =>
      obtain ⟨⟨jp, last⟩, got, rfl⟩ := dropped done
      exact sound.iget got
  | ivalid ip => exact sound.ivalid allowed.1 allowed.2 done
  | idup ip =>
      cases done
      exact sound.idup allowed
  | iput ip =>
      obtain ⟨last, got, kept⟩ := iput_total sound allowed
      rw [perform, got] at done
      cases done
      exact kept
  | setLinks ip nlink =>
      cases done
      have saved : Saved sb s (iupdate sb (s.setInode ip { s.itable ip with nlink }) ip) ip _ { s.itable ip with nlink } :=
        save sound allowed.live rfl rfl rfl rfl
      exact saved.sound
  | dirlink dp name inum =>
      obtain ⟨⟨value, last⟩, got, rfl⟩ := dropped done
      exact dirlink_sound sound allowed.live got
  | dirunlink dp name =>
      obtain ⟨⟨value, last⟩, got, rfl⟩ := dropped done
      exact dirunlink_sound sound allowed.live got
  | recycle b =>
      cases done
      exact sound.recycle b

theorem stopped {First : Type} {first : Except String First} {next : First → State} {message : String}
    (failed : (first >>= fun value => .ok (next value)) = .error message) : first = .error message := by
  rcases bind_error.mp failed with stop | ⟨value, -, rest⟩
  · exact stop
  · contradiction

/-- No call frees a free block. -/
theorem perform_error {message : String} (sound : Sound sb s) (allowed : Allowed sb s action)
    (failed : perform sb s action = .error message) : message ≠ freeingFree := by
  cases action with
  | writei ip src room off n => exact writei_error (stopped failed)
  | readi ip room dst off n => exact readi_error (stopped failed)
  | itrunc ip =>
      obtain ⟨last, got, -⟩ := itrunc_total sound allowed.live
      rw [perform, got] at failed
      contradiction
  | ialloc type => exact ialloc_error (stopped failed)
  | iget inum => exact iget_error (stopped failed)
  | ivalid ip => exact ivalid_error failed
  | idup ip => contradiction
  | iput ip =>
      obtain ⟨last, got, -⟩ := iput_total sound allowed
      rw [perform, got] at failed
      contradiction
  | setLinks ip nlink => contradiction
  | dirlink dp name inum => exact dirlink_error sound allowed.live (stopped failed)
  | dirunlink dp name => exact dirunlink_error sound allowed.live (stopped failed)
  | recycle b => contradiction

/-- A run is in a state that meets the invariant or has stopped with another panic. -/
theorem reaches_sound {state : Except String State} (reached : Reaches (blockStep sb) (BlockGuard sb) (Booted sb) state trace) :
    (∃ s, state = .ok s ∧ Sound sb s) ∨ ∃ message, state = .error message ∧ message ≠ freeingFree := by
  induction reached with
  | start begun =>
      obtain ⟨s, rfl, image⟩ := begun
      exact Or.inl ⟨s, rfl, image.sound⟩
  | next earlier allowed taken ih =>
      rcases ih with ⟨s, rfl, sound⟩ | ⟨message, rfl, -⟩
      · simp only [blockStep, Option.some.injEq, Prod.mk.injEq] at taken
        have admitted := allowed s rfl
        rw [← taken.1]
        cases result : perform sb s _ with
        | ok last => exact Or.inl ⟨last, rfl, perform_sound sound admitted result⟩
        | error message => exact Or.inr ⟨message, rfl, perform_error sound admitted result⟩
      · contradiction

/-- In every state of every run each block belongs to one place, is marked and is a data block, no call of `balloc` returned a block in use, and no free block is freed. -/
theorem blocks_owned (sb : Superblock) (state : Except String State) (trace : List Action)
    (reached : Reaches (blockStep sb) (BlockGuard sb) (Booted sb) state trace) :
    state ≠ .error freeingFree ∧ ∀ s, state = .ok s →
      (∀ p q, pointer sb s p ≠ 0 → pointer sb s p = pointer sb s q → p = q) ∧
      (∀ p, pointer sb s p ≠ 0 → inUse sb s (pointer sb s p) = true) ∧
      (∀ p, pointer sb s p ≠ 0 → dataStart sb ≤ pointer sb s p) ∧
      ∀ call ∈ s.taken, ∀ p, call.1 p ≠ call.2 := by
  rcases reaches_sound reached with ⟨s, rfl, sound⟩ | ⟨message, rfl, other⟩
  · refine ⟨by simp, fun t same => ?_⟩
    cases same
    exact ⟨sound.owned.apart, sound.owned.marked, sound.owned.above, sound.fresh⟩
  · refine ⟨fun same => other (Except.error.inj same), fun t same => ?_⟩
    contradiction

/-- The small volume with no inode in memory. -/
def smallBoot : State := { smallState with itable := fun _ => idleInode }

theorem smallBoot_image : Image smallVolume smallBoot := by
  have never (ip : InodeIx) : ¬0 < (smallBoot.itable ip).ref := Int.lt_irrefl 0
  have sound : Sound smallVolume smallBoot := by
    apply sound_of_empty
    · exact small_sound.valid
    · exact fun ip _ first => absurd first (never ip)
    · exact fun ip _ live => absurd live.1 (never ip)
    · exact small_sound.owned.positive
    · exact fun _ _ => rfl
    · exact fun i bounded k _ => small_empty i bounded k
    · exact small_sound.owned.reserved
    · exact fun _ => rfl
    · rfl
  exact ⟨sound.valid, fun _ => rfl, fun _ => rfl, rfl, sound.owned⟩

/-- A directory is made, an entry is added and removed, and the last reference to the directory goes with its links. -/
theorem blocks_owned_run : ∃ (state : Except String State) (trace : List Action), trace.length = 9 ∧ (∃ s, state = .ok s ∧ s.taken.length = 1) ∧ state ≠ .error freeingFree := by
  obtain ⟨state, trace, reached, tested⟩ := replay_witness (blockStep smallVolume) (BlockGuard smallVolume) (Booted smallVolume)
    [.ialloc tDir, .ivalid 0, .dirlink 0 (fun k => if k = 0 then 65 else 0) 1, .idup 0, .dirunlink 0 (fun k => if k = 0 then 65 else 0),
      .readi 0 none (fun _ => 0) 0 16, .iput 0, .setLinks 0 0, .iput 0]
    (.ok smallBoot) ⟨smallBoot, rfl, smallBoot_image⟩
    (fun state trace => (state.toOption.any fun s => s.taken.length == 1) && trace.length == 9) (by decide +kernel)
  rw [Bool.and_eq_true, beq_iff_eq] at tested
  obtain ⟨s, kept, count⟩ := (Option.any_eq_true ..).mp tested.1
  exact ⟨state, trace, tested.2, ⟨s, toOption_some.mp kept, beq_iff_eq.mp count⟩,
    (blocks_owned smallVolume state trace reached).1⟩

end BtbuOs.Fs
