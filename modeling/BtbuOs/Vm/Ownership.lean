import BtbuOs.Vm.Kernel
import BtbuOs.Vm.Walk
import BtbuOs.Lib.Partition

namespace BtbuOs.Vm

open Machine Partition
open Sched (Slot)

/-- A page of memory is a table, the target of a user mapping, a kernel object or in the hands of kernel code. -/
inductive Role where
  | table (s : Slot) (path : Path)
  | leaf (s : Slot) (i : Fin 512) (up : Path)
  | object (n : Nat)
  | hand
  deriving DecidableEq

/-- The page tables of all processes, the kernel objects and the page that kernel code holds. -/
structure Holding where
  roots : Slot → Option Page
  objects : Nat → Option Page
  hand : Option Page

def userPage (pte : Pte) : Option Page := if pte.valid && pte.perm.u then some pte.page else none

theorem userPage_invalid {pte : Pte} (invalid : pte.valid = false) : userPage pte = none := by
  rw [userPage, invalid]
  rfl

/-- The page that has a role; a page table has tables behind at most two indices and mappings behind three. -/
def occupant (m : Memory) (h : Holding) : Role → Option Page
  | .table s path => if path.length ≤ 2 then node m (h.roots s) path else none
  | .leaf s i up => if up.length = 2 then userPage (pteAt m (h.roots s) i up) else none
  | .object n => h.objects n
  | .hand => h.hand

/-- Every mapping for the kernel lies at or above this page number. -/
def systemVpn : Nat := maxVpn - 18

/-- An entry of a lowest table is a user mapping, or a mapping for the kernel far up that no managed page backs. -/
def Fits (l : Layout) (vpn : Nat) (pte : Pte) : Prop :=
  pte.valid = true → pte.perm.leaf = true ∧ (pte.perm.u = false → ¬Managed l pte.page ∧ systemVpn ≤ vpn)

theorem fits_zero (l : Layout) (vpn : Nat) : Fits l vpn zeroPte := fun valid => by simp [zeroPte] at valid

/-- The invariant of memory. -/
structure Sound (l : Layout) (m : Memory) (h : Holding) : Prop where
  owned : Owned (Managed l) m.free (occupant m h)
  dirs : ∀ s i up, up.length ≤ 1 → (pteAt m (h.roots s) i up).valid = true → (pteAt m (h.roots s) i up).perm = noPerm
  leaves : ∀ s i up, up.length = 2 → Fits l (vpnOf (i :: up)) (pteAt m (h.roots s) i up)

variable {l : Layout} {m after : Memory} {h next : Holding}

theorem occupant_table {s : Slot} {path : Path} (short : path.length ≤ 2) :
    occupant m h (.table s path) = node m (h.roots s) path := by
  rw [occupant, if_pos short]

theorem occupant_leaf {s : Slot} {i : Fin 512} {up : Path} (length : up.length = 2) :
    occupant m h (.leaf s i up) = userPage (pteAt m (h.roots s) i up) := by
  rw [occupant, if_pos length]

/-- Separate owners make separate page tables. -/
theorem Sound.forest (sound : Sound l m h) : Forest m h.roots := by
  refine ⟨fun s r path other table short shortOther first second => ?_, sound.owned.nodup, fun s path page short listed held => ?_⟩
  · rw [← occupant_table short] at first
    rw [← occupant_table shortOther] at second
    simpa using sound.owned.single _ _ table first second
  · rw [← occupant_table short] at held
    exact sound.owned.apart _ page held listed

/-- The page of one role is no table when the role is another one. -/
theorem Sound.no_table (sound : Sound l m h) {role : Role} {page : Page} (mine : occupant m h role = some page)
    (other : ∀ s path, role ≠ .table s path) (s : Slot) (path : Path) (short : path.length ≤ 2) :
    node m (h.roots s) path ≠ some page := by
  intro held
  rw [← occupant_table short] at held
  exact other s path (sound.owned.single role (.table s path) page mine held)

/-- Page tables that show the same give the same roles but for the hands of kernel code. -/
theorem occupant_alike (alike : Alike m after h.roots) (roots : next.roots = h.roots) (objects : next.objects = h.objects) :
    occupant after next = Function.update (occupant m h) .hand next.hand := by
  funext role
  cases role with
  | table s path =>
      rw [Function.update_of_ne (by simp), occupant, occupant, roots]
      split
      · rename_i short
        exact alike.node s path (by omega)
      · rfl
  | leaf s i up =>
      rw [Function.update_of_ne (by simp), occupant, occupant, roots]
      split
      · rename_i length
        rw [alike s i up (by omega)]
      · rfl
  | object n =>
      rw [Function.update_of_ne (by simp), occupant, occupant, objects]
  | hand =>
      rw [Function.update_self]
      rfl

theorem occupant_same (alike : Alike m after h.roots) : occupant after h = occupant m h := by
  rw [occupant_alike alike rfl rfl]
  exact Function.update_eq_self (f := occupant m h) Role.hand

/-- The invariant looks at the entries, the free list and the holders. -/
theorem Sound.remake (sound : Sound l m h) (alike : Alike m after h.roots) (roots : next.roots = h.roots)
    (owned : Owned (Managed l) after.free (occupant after next)) : Sound l after next := by
  refine ⟨owned, fun s i up short valid => ?_, fun s i up length => ?_⟩
  · rw [roots, alike s i up (by omega)] at valid ⊢
    exact sound.dirs s i up short valid
  · rw [roots, alike s i up (by omega)]
    exact sound.leaves s i up length

/-- The invariant does not depend on the denials. -/
theorem Sound.congr (sound : Sound l m h) (free : after.free = m.free) (alike : Alike m after h.roots) :
    Sound l after h := by
  apply sound.remake alike rfl
  rw [free, occupant_same alike]
  exact sound.owned

/-- Kernel code that allocates a page has it in its hands. -/
theorem Sound.alloc {page : Page} (sound : Sound l m h) (empty : h.hand = none) (alloc : kalloc m = (some page, after)) :
    Sound l after { h with hand := some page } ∧ Alike m after h.roots := by
  have alike := (sound.forest.kalloc alloc).1
  refine ⟨sound.remake alike rfl ?_, alike⟩
  have owned := sound.owned
  rw [(kalloc_some alloc).1] at owned
  have vacant : occupant m h .hand = none := empty
  have same : occupant after { h with hand := some page } = Function.update (occupant m h) .hand (some page) :=
    occupant_alike alike rfl rfl
  rw [same]
  exact owned.take vacant

/-- The page in the hands of kernel code is freed again. -/
theorem Sound.free {page : Page} (sound : Sound l m h) (held : h.hand = some page) (freed : kfree l m page = .ok after) :
    Sound l after { h with hand := none } ∧ Alike m after h.roots := by
  have holds : occupant m h .hand = some page := held
  have alike := alike_kfree freed (sound.no_table holds fun s path => by simp)
  refine ⟨sound.remake alike rfl ?_, alike⟩
  have same : occupant after { h with hand := none } = Function.update (occupant m h) .hand none :=
    occupant_alike alike rfl rfl
  rw [same, (kfree_ok freed).2.1]
  exact sound.owned.give holds

/-- A new table takes a free page. -/
theorem Grow.sound {s : Slot} (grow : Grow h.roots s m after) (sound : Sound l m h) : Sound l after h := by
  cases grow with
  | same free alike => exact sound.congr free alike
  | table up i page short invalid free written =>
      have owned := sound.owned
      rw [free] at owned
      have vacant : occupant m h (.table s (i :: up)) = none := by
        rw [occupant_table (by simpa using short), node_cons, invalid]
        rfl
      have same : occupant after h = Function.update (occupant m h) (.table s (i :: up)) (some page) := by
        funext role
        cases role with
        | table r path =>
            by_cases own : Role.table r path = .table s (i :: up)
            · obtain ⟨rfl, rfl⟩ := Role.table.inj own
              rw [Function.update_self, occupant_table (by simpa using short), node_cons, written.entry (by omega)]
              rfl
            · rw [Function.update_of_ne own, occupant, occupant]
              split
              · rename_i length
                apply written.node (by omega)
                rintro ⟨rfl, rfl⟩
                exact own rfl
              · rfl
        | leaf r j path =>
            rw [Function.update_of_ne (by simp), occupant, occupant]
            split
            · rename_i length
              rw [(Grow.table up i page short invalid free written).unmoved r j path length]
            · rfl
        | object n =>
            rw [Function.update_of_ne (by simp)]
            rfl
        | hand =>
            rw [Function.update_of_ne (by simp)]
            rfl
      refine ⟨?_, fun r j path length valid => ?_, fun r j path length => ?_⟩
      · rw [same]
        exact owned.take vacant
      · by_cases here : r = s ∧ j = i ∧ path = up
        · obtain ⟨rfl, rfl, rfl⟩ := here
          rw [written.entry (by omega)]
          rfl
        · rw [written.other (by omega) here] at valid ⊢
          exact sound.dirs r j path length valid
      · rw [(Grow.table up i page short invalid free written).unmoved r j path length]
        exact sound.leaves r j path length

theorem Grows.sound {s : Slot} (grows : Grows h.roots s m after) (sound : Sound l m h) : Sound l after h := by
  induction grows with
  | refl => exact sound
  | tail _ grow ih => exact grow.sound ih

variable {s : Slot} {i : Fin 512} {up : Path} {pte : Pte}

/-- The write of a mapping changes the role of that mapping. -/
theorem occupant_written (written : Rewritten m after h.roots s i up pte) (length : up.length = 2)
    (roots : next.roots = h.roots) (objects : next.objects = h.objects) :
    occupant after next = Function.update (Function.update (occupant m h) .hand next.hand) (.leaf s i up) (userPage pte) := by
  funext role
  cases role with
  | table r path =>
      rw [Function.update_of_ne (by simp), Function.update_of_ne (by simp), occupant, occupant, roots]
      split
      · rename_i short
        apply written.node (by omega)
        rintro ⟨_, rfl⟩
        rw [List.length_cons] at short
        omega
      · rfl
  | leaf r j path =>
      by_cases own : Role.leaf r j path = .leaf s i up
      · obtain ⟨rfl, rfl, rfl⟩ := Role.leaf.inj own
        rw [Function.update_self, occupant_leaf length, roots, written.entry (by omega)]
      · rw [Function.update_of_ne own, Function.update_of_ne (by simp), occupant, occupant, roots]
        split
        · rename_i full
          rw [written.other (by omega)]
          rintro ⟨rfl, rfl, rfl⟩
          exact own rfl
        · rfl
  | object n =>
      rw [Function.update_of_ne (by simp), Function.update_of_ne (by simp), occupant, occupant, objects]
  | hand =>
      rw [Function.update_of_ne (by simp), Function.update_self]
      rfl

/-- A mapping that fits is written, and the free list and the hands of kernel code change to match. -/
theorem Sound.write (sound : Sound l m h) (written : Rewritten m after h.roots s i up pte) (length : up.length = 2)
    (fits : Fits l (vpnOf (i :: up)) pte) (roots : next.roots = h.roots) (objects : next.objects = h.objects)
    (owned : Owned (Managed l) after.free
      (Function.update (Function.update (occupant m h) .hand next.hand) (.leaf s i up) (userPage pte))) :
    Sound l after next := by
  refine ⟨?_, fun r j path short valid => ?_, fun r j path full => ?_⟩
  · rw [occupant_written written length roots objects]
    exact owned
  · have different : ¬(r = s ∧ j = i ∧ path = up) := by
      rintro ⟨_, _, rfl⟩
      omega
    rw [roots, written.other (by omega) different] at valid ⊢
    exact sound.dirs r j path short valid
  · rw [roots]
    by_cases here : r = s ∧ j = i ∧ path = up
    · obtain ⟨rfl, rfl, rfl⟩ := here
      rw [written.entry (by omega)]
      exact fits
    · rw [written.other (by omega) here]
      exact sound.leaves r j path full

/-- A page that `kfree` accepts was mapped for the user. -/
theorem Sound.user_of_managed (sound : Sound l m h) (length : up.length = 2)
    (valid : (pteAt m (h.roots s) i up).valid = true) (managed : Managed l (pteAt m (h.roots s) i up).page) :
    (pteAt m (h.roots s) i up).perm.u = true := by
  by_contra system
  exact ((sound.leaves s i up length valid).2 (by simpa using system)).1 managed

/-- A valid entry of a lowest table is cleared and its page freed. -/
theorem Sound.unmap {freed : Memory} {table : Page} (sound : Sound l m h) (length : up.length = 2)
    (held : node m (h.roots s) up = some table) (valid : (m.entry table i).valid = true)
    (given : kfree l m (m.entry table i).page = .ok freed) :
    Sound l (freed.setEntry table i zeroPte) h ∧ Rewritten m (freed.setEntry table i zeroPte) h.roots s i up zeroPte := by
  obtain ⟨managed, free, _⟩ := kfree_ok given
  have entry := pteAt_held held i
  have user : (m.entry table i).perm.u = true := by
    rw [← entry] at valid managed ⊢
    exact sound.user_of_managed length valid managed
  have mine : occupant m h (.leaf s i up) = some (m.entry table i).page := by
    rw [occupant_leaf length, entry, userPage, valid, user]
    rfl
  have alike := alike_kfree given (sound.no_table mine fun r path => by simp)
  have heldFreed : node freed (h.roots s) up = some table := by rw [alike.node s up (by omega), held]
  have written := (rewritten_leaf (i := i) zeroPte (sound.forest.apart.alike alike) length heldFreed).preceded alike
  refine ⟨sound.write written length (fits_zero l _) rfl rfl ?_, written⟩
  have kept : Function.update (occupant m h) .hand h.hand = occupant m h := Function.update_eq_self (f := occupant m h) Role.hand
  have given := sound.owned.give mine
  rw [← free] at given
  rw [kept]
  exact given

/-- An entry that maps no user page is cleared. -/
theorem Sound.wipe {table : Page} (sound : Sound l m h) (length : up.length = 2)
    (held : node m (h.roots s) up = some table) (blank : userPage (m.entry table i) = none) :
    Sound l (m.setEntry table i zeroPte) h ∧ Rewritten m (m.setEntry table i zeroPte) h.roots s i up zeroPte := by
  have written := rewritten_leaf (i := i) zeroPte sound.forest.apart length held
  refine ⟨sound.write written length (fits_zero l _) rfl rfl ?_, written⟩
  have mine : userPage zeroPte = occupant m h (.leaf s i up) := by
    rw [occupant_leaf length, pteAt_held held, blank]
    rfl
  have kept : Function.update (occupant m h) .hand h.hand = occupant m h := Function.update_eq_self (f := occupant m h) Role.hand
  rw [kept, mine, Function.update_eq_self]
  exact sound.owned

end BtbuOs.Vm
