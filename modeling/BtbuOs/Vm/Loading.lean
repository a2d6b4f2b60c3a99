import BtbuOs.Fs.DirectoryMap
import BtbuOs.Vm.CopyRange
import BtbuOs.Vm.Exec
import BtbuOs.Vm.Munmap

namespace BtbuOs.Vm

open Machine Partition
open Sync (nthread Tid)
open Sched (Slot)

/-- A page for the image is full of bytes of value five, takes a part of the file, and is cleared behind the end of the
file. -/
def loadPage (sb : Fs.Superblock) (ip : Fs.InodeIx) (length off : Nat) (page : Page) (b : Bytes) (v : Fs.State) :
    Except String (Bytes × Fs.State) := do
  let b := b.memset page 5
  let (_, data, v) ← Fs.readi sb v ip none (b page) off 4096
  let data := if length < off + 4096 then Bytes.splice data (length - off) (4096 - (length - off)) fun _ => 0 else data
  return (Function.update b page data, v)

/-- The loop of `bin_loader` with the file and the bytes of the pages. -/
def loadPagesBytes (sb : Fs.Superblock) (ip : Fs.InodeIx) (length : Nat) (root : Page) : Nat → Nat → Nat → Memory → Bytes →
    Fs.State → Except String (Memory × Bytes × Fs.State)
  | 0, _, _, m, b, v => .ok (m, b, v)
  | npages + 1, vpn, off, m, b, v =>
      match kalloc m with
      | (none, _) => .error "..."
      | (some page, m) => do
          let (b, v) ← loadPage sb ip length off page b v
          let (mapped, m) ← mapPage m root vpn page { r := true, w := true, x := true, u := true }
          if mapped then loadPagesBytes sb ip length root npages (vpn + 1) (off + 4096) m b v else .error "..."

/-- The length of a program is the word `size` of its inode. -/
def programLength (v : Fs.State) (ip : Fs.InodeIx) : BitVec 32 := BitVec.ofNat 32 (v.itable ip).size

/-- `bin_loader` with the file and the bytes of the pages. -/
def binLoaderBytes (sb : Fs.Superblock) (l : Layout) (k : Kernel) (b : Bytes) (v : Fs.State) (s : Slot) (ip : Fs.InodeIx) :
    Except String (Attempt × Kernel × Bytes × Fs.State) := do
  let v ← Fs.ivalid sb v ip
  let length := programLength v ip
  match (k.pool s).pagetable with
  | none =>
      match kalloc k.memory with
      | (none, m) => if 0 < imagePages length then .error "..." else return (.faulted, { k with memory := m }, b, v)
      | (some page, m) => do
          let (b, v) ← if 0 < imagePages length then loadPage sb ip length.toNat 0 page b v else .ok (b.memset page 5, v)
          return (.faulted, { k with memory := m }, b, v)
  | some root => do
      let (m, b, v) ← loadPagesBytes sb ip length.toNat root (imagePages length) 1 0 k.memory b v
      let p := { k.pool s with maxPage := 1 + imagePages length, ustackBase := 2 + imagePages length }
      let (tid, k) ← allocthread l { k.setProcess s p with memory := m } s root true
      match tid with
      | some 0 => return (.done, k, kallocBytes m b, v)
      | _ => .error "proc alloc main thread failed!"

variable {sb : Fs.Superblock} {l : Layout} {k after : Kernel} {m mid last : Memory} {b c : Bytes} {v v' w : Fs.State} {h : Holding}
  {s : Slot} {root page : Page} {ip : Fs.InodeIx} {i off size npages vpn : Nat} {data : Nat → Byte}

/-- A loop that returns is the one of the kernel without the file and the bytes. -/
theorem loadPagesBytes_forget {length : Nat} (done : loadPagesBytes sb ip length root npages vpn off m b v = .ok (last, c, w)) :
    loadPages root npages vpn m = .ok last := by
  induction npages generalizing vpn off m b v with
  | zero =>
      cases done
      rfl
  | succ npages ih =>
      rw [loadPagesBytes] at done
      rw [loadPages]
      obtain ⟨⟨found, mid⟩, alloc⟩ : ∃ result, kalloc m = result := ⟨_, rfl⟩
      rw [alloc] at done ⊢
      cases found with
      | none => cases done
      | some page =>
        obtain ⟨⟨filled, next⟩, -, rest⟩ := bind_ok.mp done
        obtain ⟨⟨mapped, following⟩, mapping, tail⟩ := bind_ok.mp rest
        cases mapped with
        | false => contradiction
        | true => exact bind_ok.mpr ⟨(true, following), mapping, ih tail⟩

/-- A call that returns is the one of the kernel without the file and the bytes. -/
theorem binLoaderBytes_forget {attempt : Attempt} (done : binLoaderBytes sb l k b v s ip = .ok (attempt, after, c, w)) :
    ∃ opened, Fs.ivalid sb v ip = .ok opened ∧ binLoader l k s (programLength opened ip) = .ok (attempt, after) := by
  obtain ⟨opened, opening, rest⟩ := bind_ok.mp done
  refine ⟨opened, opening, ?_⟩
  unfold binLoader
  cases rooted : (k.pool s).pagetable with
  | none =>
      simp only [rooted] at rest ⊢
      obtain ⟨⟨found, mid⟩, alloc⟩ : ∃ result, kalloc k.memory = result := ⟨_, rfl⟩
      rw [alloc] at rest ⊢
      cases found with
      | none =>
          simp only at rest ⊢
          split at rest
          · contradiction
          · rename_i few
            rw [if_neg few]
            cases rest
            rfl
      | some page =>
          simp only at rest ⊢
          split at rest
          · obtain ⟨filled, -, result⟩ := bind_ok.mp rest
            cases result
            rfl
          · cases rest
            rfl
  | some root =>
      simp only [rooted] at rest ⊢
      obtain ⟨⟨loaded, filled, next⟩, loading, more⟩ := bind_ok.mp rest
      obtain ⟨⟨tid, threaded⟩, threading, result⟩ := bind_ok.mp more
      refine bind_ok.mpr ⟨loaded, loadPagesBytes_forget loading, bind_ok.mpr ⟨(tid, threaded), threading, ?_⟩⟩
      simp only at result ⊢
      split at result
      · cases result
        rfl
      · contradiction

/-- The file of a program: an inode in memory with its size and its content, and with enough free blocks for its holes. -/
structure ImageFile (sb : Fs.Superblock) (v : Fs.State) (ip : Fs.InodeIx) (i : Nat) (data : Nat → Byte) (size : Nat) :
    Prop where
  sound : Fs.Sound sb v
  live : Fs.Live v ip i
  length : (v.itable ip).size = size
  content : Fs.content sb v i = data
  small : size ≤ Fs.maxfile * Fs.bsize
  enough : Fs.Enough sb v i (Fs.reach 0 size)

/-- The byte of the image at an offset. -/
def imageByte (data : Nat → Byte) (size x : Nat) : Byte := if x < size then data x else 0

/-- A read of a page that starts inside the file gives its bytes up to the end of the file. -/
theorem ImageFile.readi (file : ImageFile sb v ip i data size) (dst : Nat → Byte) (inside : off < size) :
    ∃ value next, Fs.readi sb v ip none dst off 4096 =
      .ok (value, Bytes.splice dst 0 (min 4096 (size - off)) fun x => data (off + x), next) ∧
        ImageFile sb next ip i data size := by
  have whole : Fs.maxfile * Fs.bsize = 274432 := rfl
  have small := file.small
  have low : off ≤ (v.itable ip).size := by
    rw [file.length]
    omega
  have word : off + 4096 < 2 ^ 32 := by omega
  have bytes : Fs.available v ip off 4096 = min 4096 (size - off) := by rw [Fs.available, file.length]
  have part : Fs.reach off (min 4096 (size - off)) ⊆ Fs.reach 0 size := Fs.reach_mono (Nat.zero_le off) (by omega)
  obtain ⟨⟨value, read, next⟩, done⟩ := Fs.readi_total none dst file.sound file.live low word (by rw [bytes]; omega)
    (by rw [bytes]; exact file.enough.mono part)
  obtain ⟨-, moved⟩ := Fs.readi_reads file.sound file.live low word (fun _ absent => absurd absent (by simp)) done
  obtain ⟨sound, grown⟩ := Fs.readi_grown file.sound file.live done
  obtain ⟨addrs, entry⟩ := grown.extended.entry ip
  rw [file.length, file.content] at moved
  refine ⟨value, next, by rw [done, moved], ?_⟩
  constructor
  · exact sound
  · exact (grown.extended.live ip i).mpr file.live
  · rw [entry]
    exact file.length
  · rw [grown.content, file.content]
  · exact small
  · rw [Fs.readi, if_neg (by rw [Nat.mod_eq_of_lt word]; omega)] at done
    apply Fs.readLoop_supply file.sound file.live file.enough _ done
    intro x above below
    have count : (if off + 4096 > (v.itable ip).size then (v.itable ip).size - off else 4096) = min 4096 (size - off) := by
      rw [file.length]
      split <;> omega
    rw [count] at below
    exact Fs.path_subset_reach (Nat.zero_le x) (by omega) (by omega)

/-- A page holds its part of the image. -/
theorem ImageFile.loadPage (file : ImageFile sb v ip i data size) (page : Page) (b : Bytes) (inside : off < size) :
    ∃ c next, loadPage sb ip size off page b v = .ok (c, next) ∧ ImageFile sb next ip i data size ∧
      (∀ x, x < 4096 → c page x = imageByte data size (off + x)) ∧ ∀ other, other ≠ page → c other = b other := by
  obtain ⟨value, next, read, kept⟩ := file.readi (b.memset page 5 page) inside
  refine ⟨_, next, bind_ok.mpr ⟨_, read, rfl⟩, kept, fun x low => ?_, fun other different => ?_⟩
  · rw [Function.update_self, imageByte]
    split
    · rename_i tail
      by_cases early : off + x < size
      · rw [if_pos early, Bytes.splice, if_neg (by omega), Bytes.splice, if_pos (by omega), Nat.sub_zero]
      · rw [if_neg early, Bytes.splice, if_pos (by omega)]
    · rename_i full
      rw [if_pos (by omega), Bytes.splice, if_pos (by omega), Nat.sub_zero]
  · rw [Function.update_of_ne different, Bytes.memset_other _ _ _ different]

/-- The pages of a program lie in one lowest table. -/
theorem image_path {v : Nat} (low : v < 512) : tablePath v = tablePath 1 := by
  have middle : px 1 v = px 1 1 := by
    apply Fin.ext
    show v / 512 ^ 1 % 512 = 1 / 512 ^ 1 % 512
    rw [Nat.pow_one, Nat.div_eq_of_lt low]
  have upper : px 2 v = px 2 1 := by
    apply Fin.ext
    show v / 512 ^ 2 % 512 = 1 / 512 ^ 2 % 512
    rw [Nat.div_eq_of_lt (Nat.lt_trans low (by decide)), Nat.div_eq_of_lt (show 1 < 512 ^ 2 by decide)]
  rw [tablePath, tablePath, middle, upper]

/-- A page of the image holds its part of the file, with zeros behind the end of the file. -/
def HoldsImage (data : Nat → Byte) (size v : Nat) (bytes : Nat → Byte) : Prop :=
  ∀ x, x < 4096 → bytes x = imageByte data size (4096 * (v - 1) + x)

/-- With enough free pages the loop maps all pages of the image and fills them. -/
theorem loadPagesBytes_fills (rooted : h.roots s = some root) (empty : h.hand = none) {spare : Nat} (before : Sound l m h)
    (file : ImageFile sb v ip i data size) (place : off + 4096 = 4096 * vpn) (inside : off + 4096 * npages < size + 4096)
    (low : vpn + npages < 512) (vacant : ∀ u, vpn ≤ u → u < vpn + npages → (space m (h.roots s) u).valid = false)
    (enough : supplies (npages + spare + missing m root 1) m) :
    ∃ after c next, loadPagesBytes sb ip size root npages vpn off m b v = .ok (after, c, next) ∧
      Fills l m after b c h s (fun _ => imagePerm) (HoldsImage data size) (fun u => vpn ≤ u ∧ u < vpn + npages) ∧
        supplies (spare + missing after root 1) after := by
  induction npages generalizing vpn off m b v with
  | zero =>
      rw [Nat.zero_add] at enough
      refine ⟨m, b, v, rfl, ?_, enough⟩
      apply (Fills.nothing (.nothing before (.refl m h.roots s _) fun _ listed => listed) fun _ _ => rfl).congr
      exact fun u => ⟨fun here => by omega, fun none => none.elim⟩
  | succ npages ih =>
      have count : npages + 1 + spare + missing m root 1 = npages + spare + missing m root 1 + 1 := by omega
      rw [count] at enough
      obtain ⟨page, mid, alloc, rest⟩ := supplies_kalloc enough
      obtain ⟨handed, alike⟩ := before.alloc empty alloc
      have heldHand : ({ h with hand := some page } : Holding).roots s = some root := rooted
      have here : tablePath 1 = tablePath vpn := (image_path (by omega)).symm
      rw [← missing_alike alike rooted, missing_path here] at rest
      have hole : (space mid (some root) vpn).valid = false := by
        have same := alike.space s vpn
        rw [rooted] at same
        rw [same, ← rooted]
        exact vacant vpn (Nat.le_refl vpn) (by omega)
      have begun : off < size := by omega
      obtain ⟨c, next, loaded, kept, bytes, other⟩ := file.loadPage page b begun
      obtain ⟨after, mapping, left⟩ := mapPage_supplied page imagePerm handed.forest heldHand (by rw [maxVpn]; omega) hole rest
      have holds : HoldsImage data size vpn (c page) := by
        intro x below
        rw [bytes x below]
        congr 2
        omega
      have first : Fills l m after b c h s (fun _ => imagePerm) (HoldsImage data size) (· = vpn) :=
        .single (fun _ => imagePerm) before rooted empty rfl rfl alloc mapping holds other
      have mapped : (space after (some root) vpn).valid = true := by
        obtain ⟨known, entry, -⟩ := first.fresh vpn rfl
        rw [← rooted, entry]
      have still (u : Nat) (above : vpn + 1 ≤ u) (below : u < vpn + 1 + npages) : (space after (h.roots s) u).valid = false := by
        rw [first.space (by rw [maxVpn]; omega) (by omega)]
        exact vacant u (by omega) (by omega)
      have stocked : supplies (npages + spare + missing after root 1) after := by
        rw [missing_beside here mapped]
        exact left
      have onward : off + 4096 + 4096 = 4096 * (vpn + 1) := by omega
      obtain ⟨last, d, final, looped, others, remains⟩ := ih first.sound kept onward (by omega) (by omega) still stocked
      refine ⟨last, d, final, ?_, ?_, remains⟩
      · rw [loadPagesBytes, alloc]
        exact bind_ok.mpr ⟨(c, next), loaded, bind_ok.mpr ⟨(true, after), mapping, looped⟩⟩
      · apply (first.trans others).congr
        intro u
        omega

/-- The macro `BASE_ADDRESS`. -/
def baseAddress : Nat := 0x1000

/-- The page number of `va_end`, the rounded end of the image. -/
def imageEnd (size : Nat) : Nat := (baseAddress + size + 4095) / 4096

/-- The user of a process sees a byte at an address. -/
def ShowsByte (k : Kernel) (b : Bytes) (s : Slot) (va : Nat) (value : Byte) : Prop :=
  ∃ root page, (k.pool s).pagetable = some root ∧ userTarget k.memory root va = some page ∧ b page (va % 4096) = value

/-- The image holds the bytes of the file and zeros up to the end of its last page, and the stack of the main thread lies
one page above it and apart from it and from all trap frames. -/
structure ImageLoaded (l : Layout) (k : Kernel) (b : Bytes) (s : Slot) (data : Nat → Byte) (size : Nat) : Prop where
  content : ∀ x, x < size → ShowsByte k b s (baseAddress + x) (data x)
  rest : ∀ x, size ≤ x → baseAddress + x < 4096 * imageEnd size → ShowsByte k b s (baseAddress + x) 0
  pages : ∀ u, u < maxVpn → (userPage (space k.memory (k.pool s).pagetable u) ≠ none ↔
    baseAddress / 4096 ≤ u ∧ u < imageEnd size ∨ u = ustackVpn (k.pool s) 0)
  flags : ∀ u, baseAddress / 4096 ≤ u → u < imageEnd size → (space k.memory (k.pool s).pagetable u).perm = imagePerm
  gap : (space k.memory (k.pool s).pagetable (imageEnd size)).valid = false
  above : ustackVpn (k.pool s) 0 = imageEnd size + 1
  below : ∀ t, ustackVpn (k.pool s) 0 < trapframeVpn t
  stack : ∃ page, space k.memory (k.pool s).pagetable (ustackVpn (k.pool s) 0) = { valid := true, perm := stackPerm, page } ∧
    (∀ u, u < maxVpn → u ≠ ustackVpn (k.pool s) 0 → userPage (space k.memory (k.pool s).pagetable u) ≠ some page) ∧
      ∀ r t, page ≠ l.trapframe r t
  main : (k.pool s).threads 0 = .used

/-- The number of pages of the image. -/
theorem imageEnd_eq (length : BitVec 32) : imageEnd length.toNat = 1 + imagePages length := by
  rw [imageEnd, imagePages, baseAddress]
  omega

/-- A process without pages for the user maps nothing far below the trap frames. -/
theorem Sound.blank (sound : Sound l m h) (blank : ∀ u, u < maxVpn → userPage (space m (h.roots s) u) = none) {u : Nat}
    (low : u < systemVpn) : (space m (h.roots s) u).valid = false := by
  have inside : u < maxVpn := by
    simp only [systemVpn] at low
    omega
  by_contra mapped
  have valid : (space m (h.roots s) u).valid = true := by simpa using mapped
  have fits := sound.leaves s (px 0 u) (tablePath u) rfl valid
  have system : (space m (h.roots s) u).perm.u = false := by
    by_contra user
    have page : userPage (space m (h.roots s) u) = some (space m (h.roots s) u).page := by
      simp [userPage, valid, user]
    rw [blank u inside] at page
    contradiction
  have high := (fits.2 system).2
  rw [vpnOf_path inside] at high
  omega

section result

variable {length : BitVec 32} {stacked : Memory}

/-- The pages of the image stay in place when the main thread gets its stack and its trap frame. -/
theorem image_stays (stack : Adds l m stacked h s (fun _ => stackPerm) (· = 2 + imagePages length))
    (frame : Touched stacked last h.roots s (· = trapframeVpn 0)) {u : Nat} (high : u < 1 + imagePages length) :
    space last (h.roots s) u = space m (h.roots s) u := by
  have limit := imagePages_le length
  have top := trapframe_high 0
  have low : systemVpn = 2 ^ 26 - 18 := rfl
  have inside : u < maxVpn := by
    have all : maxVpn = 2 ^ 26 := rfl
    omega
  rw [frame.space s inside fun both => by omega, stack.space inside fun same => by omega]

/-- The user sees the image at its addresses. -/
theorem image_shows (rooted : (after.pool s).pagetable = some root) (held : h.roots s = some root)
    (fills : Fills l k.memory m b c h s (fun _ => imagePerm) (HoldsImage data length.toNat)
      (fun u => 1 ≤ u ∧ u < 1 + imagePages length)) (before : Sound l k.memory h)
    (stack : Adds l m stacked h s (fun _ => stackPerm) (· = 2 + imagePages length))
    (frame : Touched stacked after.memory h.roots s (· = trapframeVpn 0)) (alloc : kalloc m = (some page, mid)) {x : Nat}
    (inside : x < 4096 * imagePages length) :
    ShowsByte after (kallocBytes m c) s (baseAddress + x) (imageByte data length.toNat x) := by
  have number : (baseAddress + x) / 4096 = 1 + x / 4096 := by
    rw [baseAddress]
    omega
  have offset : (baseAddress + x) % 4096 = x % 4096 := by
    rw [baseAddress]
    omega
  have here : 1 ≤ 1 + x / 4096 ∧ 1 + x / 4096 < 1 + imagePages length := by omega
  obtain ⟨image, mine, listed⟩ := fills.user here rfl
  have managed : Managed l image := before.owned.freeManaged image listed
  have shown : userPage (space after.memory (some root) (1 + x / 4096)) = some image := by
    rw [← held, image_stays stack frame here.2]
    exact mine
  have other : image ≠ page := by
    rintro rfl
    apply fills.sound.user_taken mine
    rw [(kalloc_some alloc).1]
    exact List.mem_cons_self
  have nonzero : image ≠ 0 := Nat.ne_of_gt (Nat.lt_of_lt_of_le (Nat.zero_lt_of_lt l.trampoline_lt) managed.1)
  refine ⟨root, image, rooted, userTarget_some.mpr ⟨?_, ?_, nonzero⟩, ?_⟩
  · rw [number]
    exact fills.inside _ here
  · rw [number]
    exact shown
  · rw [offset, kallocBytes_some alloc, Bytes.memset_other _ _ _ other,
      fills.data _ image here mine _ (Nat.mod_lt x (by decide))]
    congr 1
    omega

/-- What the loop, the stack and the trap frame of the main thread make of a process without pages for the user. -/
theorem image_loaded (kept : Kept l k) (rooted : (k.pool s).pagetable = some root)
    (blank : ∀ u, u < maxVpn → userPage (space k.memory (k.pool s).pagetable u) = none)
    (fills : Fills l k.memory m b c k.holding s (fun _ => imagePerm) (HoldsImage data length.toNat)
      (fun u => 1 ≤ u ∧ u < 1 + imagePages length))
    (loading : loadPages root (imagePages length) 1 k.memory = .ok m) (alloc : kalloc m = (some page, mid))
    (threading : allocthread l (imaged k s length m) s root true = .ok (some 0, after)) :
    ImageLoaded l after (kallocBytes m c) s data length.toNat := by
  have given : (kalloc m).1 ≠ none := by simp [alloc]
  obtain ⟨stacked, stack, frame, -⟩ := imaged_adds kept rooted loading given threading
  rcases allocthread_user (kept.imaged rooted loading) (imaged_root rooted length m) threading with ⟨impossible, _⟩ | ⟨t, main, started⟩
  · contradiction
  obtain rfl := Option.some.inj main
  have keptAfter := started.backed given
  obtain ⟨maxPage, pool⟩ := started.pool
  have own : after.pool s = Vm.started (sized (k.pool s) length) 0 maxPage := by
    rw [pool, Function.update_self, imaged_pool]
  have place : (after.pool s).pagetable = (k.pool s).pagetable := by rw [own]; rfl
  have base : ustackVpn (after.pool s) 0 = 2 + imagePages length := by rw [own]; rfl
  have running : (after.pool s).threads 0 = .used := by rw [own, started_thread]
  have loads : Loads l k.memory after.memory k.holding s length := ⟨m, stacked, fills.toAdds, stack, frame⟩
  have limit := imagePages_le length
  have top : systemVpn = 2 ^ 26 - 18 := rfl
  have all : maxVpn = 2 ^ 26 := rfl
  have high := trapframe_high
  obtain ⟨image, backing, stacking⟩ := loads.maps
  have start : baseAddress / 4096 = 1 := rfl
  have shows {x : Nat} (inside : x < 4096 * imagePages length) :
      ShowsByte after (kallocBytes m c) s (baseAddress + x) (imageByte data length.toNat x) :=
    image_shows (place.trans rooted) rooted fills kept.sound stack frame alloc inside
  have whole : length.toNat ≤ 4096 * imagePages length := by
    rw [imagePages]
    omega
  constructor
  · intro x inside
    have shown := shows (x := x) (by omega)
    rwa [imageByte, if_pos inside] at shown
  · intro x above below
    rw [imageEnd_eq, baseAddress] at below
    have shown := shows (x := x) (by omega)
    rwa [imageByte, if_neg (by omega)] at shown
  · intro u inside
    rw [place, imageEnd_eq, base, start]
    constructor
    · intro mapped
      have apart : u ≠ trapframeVpn 0 := by
        rintro rfl
        have system := keptAfter.trapframe_system (s := s) (t := 0) (by rw [running]; rfl)
        exact mapped (by rw [← place]; exact system)
      by_contra outside
      have same : space after.memory (k.pool s).pagetable u = space k.memory (k.pool s).pagetable u :=
        loads.other inside apart outside
      rw [same] at mapped
      exact mapped (blank u inside)
    · rintro (here | rfl)
      · obtain ⟨known, entry⟩ := image u here.1 here.2
        have mine : space after.memory (k.pool s).pagetable u = { valid := true, perm := imagePerm, page := known } := entry
        rw [mine]
        exact Option.some_ne_none known
      · have mine : space after.memory (k.pool s).pagetable _ = { valid := true, perm := stackPerm, page := backing } := stacking
        rw [mine]
        exact Option.some_ne_none backing
  · intro u above below
    rw [imageEnd_eq] at below
    obtain ⟨known, entry⟩ := image u above below
    have mine : space after.memory (k.pool s).pagetable u = { valid := true, perm := imagePerm, page := known } := entry
    rw [place, mine]
  · have hole : ¬newPages length (1 + imagePages length) := by
      rintro (here | same)
      · omega
      · omega
    have same := loads.other (v := 1 + imagePages length) (by omega) (by have := high 0; omega) hole
    have bare := kept.sound.blank (u := 1 + imagePages length) blank (by omega)
    rw [← same] at bare
    rw [place, imageEnd_eq]
    exact bare
  · rw [base, imageEnd_eq]
    omega
  · intro t
    have above := high t
    rw [base]
    omega
  · have mine : space after.memory (after.pool s).pagetable (ustackVpn (after.pool s) 0) =
        { valid := true, perm := stackPerm, page := backing } := by
      rw [place, base]
      exact stacking
    have user : userPage (space after.memory (after.pool s).pagetable (ustackVpn (after.pool s) 0)) = some backing := by
      rw [mine]
      rfl
    refine ⟨backing, mine, fun u inside other shared => ?_, fun r t same => ?_⟩
    · exact other (keptAfter.sound.distinct inside (by rw [base]; omega) shared user)
    · apply trapframe_unmanaged l r t
      rw [← same]
      exact keptAfter.sound.owned.roleManaged (.leaf s (px 0 _) (tablePath _)) backing (by rw [occupant_leaf rfl]; exact user)
  · exact running

end result

/-- The file that a caller of `bin_loader` has: a reference to an inode of the table with a type, which `ivalid` brings to
memory, and free blocks for its holes. -/
structure HeldFile (sb : Fs.Superblock) (v w : Fs.State) (ip : Fs.InodeIx) (i : Nat) : Prop where
  sound : Fs.Sound sb v
  held : 0 < (v.itable ip).ref
  number : (v.itable ip).inum = i
  inside : i < sb.ninodes
  opened : Fs.ivalid sb v ip = .ok w
  small : (w.itable ip).size ≤ Fs.maxfile * Fs.bsize
  enough : Fs.Enough sb w i (Fs.reach 0 (w.itable ip).size)

/-- The length of the program is the size of the file. -/
theorem HeldFile.length (file : HeldFile sb v w ip i) : (programLength w ip).toNat = (w.itable ip).size := by
  have whole : Fs.maxfile * Fs.bsize = 274432 := rfl
  have small := file.small
  rw [programLength, BitVec.toNat_ofNat, Nat.mod_eq_of_lt (by omega)]

theorem HeldFile.image (file : HeldFile sb v w ip i) :
    ImageFile sb w ip i (Fs.content sb v i) (programLength w ip).toNat := by
  have bounded : (v.itable ip).inum < sb.ninodes := by
    rw [file.number]
    exact file.inside
  have small := file.small
  have enough := file.enough
  constructor
  · exact file.sound.ivalid file.held bounded file.opened
  · rcases Fs.ivalid_cases file.opened with ⟨valid, rfl⟩ | ⟨-, -, rfl⟩
    · exact ⟨file.held, valid, file.number⟩
    · have own : (v.setInode ip ((v.itable ip).loaded (Fs.dinode sb v (v.itable ip).inum))).itable ip =
          (v.itable ip).loaded (Fs.dinode sb v (v.itable ip).inum) := Function.update_self ..
      rw [Fs.Live, own]
      exact ⟨file.held, rfl, file.number⟩
  · exact file.length.symm
  · exact (file.sound.ivalid_still file.held file.opened).content i
  · rwa [file.length]
  · rwa [file.length]

/-- The main thread of a process can be set up. -/
def MainFree (k : Kernel) (s : Slot) : Prop :=
  (k.pool s).threads 0 = .unused ∧ (space k.memory (k.pool s).pagetable (trapframeVpn 0)).valid = false

/-- When the image is loaded, the call returns exactly when `allocthread` gives the main thread. -/
theorem binLoaderBytes_threads {result : Attempt × Kernel × Bytes × Fs.State} (opened : Fs.ivalid sb v ip = .ok w)
    (rooted : (k.pool s).pagetable = some root)
    (loading : loadPagesBytes sb ip (programLength w ip).toNat root (imagePages (programLength w ip)) 1 0 k.memory b w =
      .ok (m, c, v')) : binLoaderBytes sb l k b v s ip = .ok result ↔
        ∃ after, allocthread l (imaged k s (programLength w ip) m) s root true = .ok (some 0, after) ∧
          result = (.done, after, kallocBytes m c, v') := by
  constructor
  · intro done
    obtain ⟨_, opening, rest⟩ := bind_ok.mp done
    obtain rfl := Except.ok.inj (opened.symm.trans opening)
    dsimp only at rest
    split at rest
    · rename_i absent
      rw [rooted] at absent
      contradiction
    · rename_i top place
      obtain rfl := Option.some.inj (rooted.symm.trans place)
      obtain ⟨_, looped, more⟩ := bind_ok.mp rest
      obtain rfl := Except.ok.inj (loading.symm.trans looped)
      obtain ⟨⟨tid, started⟩, threading, last⟩ := bind_ok.mp more
      dsimp only at last
      split at last
      · cases last
        exact ⟨started, threading, rfl⟩
      · contradiction
  · rintro ⟨after, threading, rfl⟩
    refine bind_ok.mpr ⟨w, opened, ?_⟩
    dsimp only
    split
    · rename_i absent
      rw [rooted] at absent
      contradiction
    · rename_i top place
      obtain rfl := Option.some.inj (rooted.symm.trans place)
      exact bind_ok.mpr ⟨_, loading, bind_ok.mpr ⟨(some 0, after), threading, rfl⟩⟩

/-- With enough pages `bin_loader` returns exactly when the main thread of the process is free, and then the image of the
file is loaded. -/
theorem binLoader_loads_image (kept : Kept l k) (rooted : (k.pool s).pagetable = some root)
    (blank : ∀ u, u < maxVpn → userPage (space k.memory (k.pool s).pagetable u) = none) (file : HeldFile sb v w ip i)
    (enough : supplies (imagePages (programLength w ip) + 1 + missing k.memory root 1) k.memory) (b : Bytes) :
    ((∃ result, binLoaderBytes sb l k b v s ip = .ok result) ↔ MainFree k s) ∧
      ∀ attempt after c last, binLoaderBytes sb l k b v s ip = .ok (attempt, after, c, last) →
        attempt = .done ∧ ImageLoaded l after c s (Fs.content sb v i) (w.itable ip).size := by
  have held : k.holding.roots s = some root := rooted
  have small := file.small
  have whole : Fs.maxfile * Fs.bsize = 274432 := rfl
  have size := file.length
  have count : imagePages (programLength w ip) ≤ 67 := by
    rw [imagePages]
    omega
  have bounded : 0 + 4096 * imagePages (programLength w ip) < (programLength w ip).toNat + 4096 := by
    rw [imagePages]
    omega
  have top : systemVpn = 2 ^ 26 - 18 := rfl
  have all : maxVpn = 2 ^ 26 := rfl
  have high := trapframe_high 0
  have vacant (u : Nat) (low : u < systemVpn) : (space k.memory (k.holding.roots s) u).valid = false := kept.sound.blank blank low
  have begun : 0 + 4096 = 4096 * 1 := rfl
  obtain ⟨m, c, last, looped, fills, left⟩ := loadPagesBytes_fills held rfl kept.sound file.image begun bounded (by omega)
    (fun u _ _ => vacant u (by omega)) enough
  have loading := loadPagesBytes_forget looped
  obtain ⟨page, mid, alloc, -⟩ := supplies_kalloc (by rwa [Nat.add_comm] at left)
  have threads {result : Attempt × Kernel × Bytes × Fs.State} : binLoaderBytes sb l k b v s ip = .ok result ↔ _ :=
    binLoaderBytes_threads file.opened rooted looped
  have outside {u : Nat} (inside : u < maxVpn) (above : 1 + imagePages (programLength w ip) ≤ u) :
      space m (some root) u = space k.memory (some root) u := by
    have same := fills.space inside fun here => by omega
    rwa [held] at same
  constructor
  · constructor
    · rintro ⟨result, done⟩
      obtain ⟨after, threading, -⟩ := threads.mp done
      have given : (kalloc m).1 ≠ none := by simp [alloc]
      obtain ⟨stacked, stack, -, free⟩ := imaged_adds kept rooted loading given threading
      rcases allocthread_user (kept.imaged rooted loading) (imaged_root rooted _ m) threading with ⟨impossible, _⟩ | ⟨t, main, started⟩
      · contradiction
      · obtain rfl := Option.some.inj main
        have unused := started.unused
        rw [imaged_pool] at unused
        refine ⟨unused, ?_⟩
        rw [stack.space (trapframe_inside 0) (by omega), held, outside (trapframe_inside 0) (by omega)] at free
        rwa [rooted]
    · rintro ⟨unused, frame⟩
      have found : ((List.finRange nthread).find? fun t => ((imaged k s (programLength w ip) m).pool s).threads t = .unused) = some 0 := by
        rw [imaged_pool]
        exact main_unused unused
      have place : ustackVpn ((imaged k s (programLength w ip) m).pool s) 0 = 2 + imagePages (programLength w ip) := by
        rw [imaged_pool]
        rfl
      have stack : (space m (some root) (ustackVpn ((imaged k s (programLength w ip) m).pool s) 0)).valid = false := by
        rw [place, outside (by omega) (by omega), ← held]
        exact vacant _ (by omega)
      have free : (space m (some root) (trapframeVpn 0)).valid = false := by
        rw [outside (trapframe_inside 0) (by omega), ← rooted]
        exact frame
      have rest : supplies (1 + missing m root (ustackVpn ((imaged k s (programLength w ip) m).pool s) 0)) m := by
        have low : ustackVpn ((imaged k s (programLength w ip) m).pool s) 0 < 512 := by
          rw [place]
          omega
        rwa [missing_path (image_path low)]
      obtain ⟨after, threading, -⟩ := allocthread_supplied (kept.imaged rooted loading) (imaged_root rooted _ m) found stack free rest
      exact ⟨_, threads.mpr ⟨after, threading, rfl⟩⟩
  · intro attempt after c' last' done
    obtain ⟨started, threading, same⟩ := threads.mp done
    cases same
    refine ⟨rfl, ?_⟩
    rw [← size]
    exact image_loaded kept rooted blank fills loading alloc threading

/-- A file of two bytes is loaded to the first process. -/
theorem binLoader_loads_image_small : ∃ k after c last,
    allocproc (smallLayout 12) (bootKernel (smallLayout 12)) = .ok (some 0, k) ∧
      binLoaderBytes Fs.smallVolume (smallLayout 12) k blankBytes Fs.smallState 0 0 = .ok (.done, after, c, last) ∧
        ImageLoaded (smallLayout 12) after c 0 (Fs.content Fs.smallVolume Fs.smallState 1) 2 := by
  have test : ((allocproc (smallLayout 12) (bootKernel (smallLayout 12))).toOption.any fun pair : Option Slot × Kernel =>
      decide (pair.1 = some 0) && decide ((pair.2.pool 0).threads 0 = .unused) &&
        ((pair.2.pool 0).pagetable.any fun root => decide (supplies (2 + missing pair.2.memory root 1) pair.2.memory))) = true := by
    decide +kernel
  obtain ⟨⟨slot, k⟩, created, test⟩ := (Option.any_eq_true ..).mp test
  simp only [Bool.and_eq_true, decide_eq_true_eq, Option.any_eq_true] at test
  obtain ⟨⟨rfl, unused⟩, root, rooted, enough⟩ := test
  rw [toOption_some] at created
  obtain ⟨keptBoot, -⟩ := bootKernel_kept (smallLayout 12)
  obtain ⟨kept, -⟩ := allocproc_kept keptBoot created
  have file : HeldFile Fs.smallVolume Fs.smallState Fs.smallState 0 1 :=
    ⟨Fs.small_sound, by decide, rfl, by decide, rfl, by decide,
      Fs.small_enough (Nat.le_trans (Fs.card_reach (by decide)) (by decide))⟩
  have blank (u : Nat) (inside : u < maxVpn) : userPage (space k.memory (k.pool 0).pagetable u) = none := by
    rw [rooted]
    exact allocproc_userless keptBoot created rooted inside
  have free : MainFree k 0 := by
    refine ⟨unused, ?_⟩
    rw [rooted]
    exact allocproc_blank keptBoot created rooted (trapframe_inside 0) (by decide)
  obtain ⟨returns, loads⟩ := binLoader_loads_image kept rooted blank file enough blankBytes
  obtain ⟨⟨attempt, after, c, last⟩, done⟩ := returns.mpr free
  obtain ⟨rfl, loaded⟩ := loads attempt after c last done
  exact ⟨k, after, c, last, created, done, loaded⟩

end BtbuOs.Vm
