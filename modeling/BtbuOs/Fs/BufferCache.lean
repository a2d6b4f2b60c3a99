import BtbuOs.Fs.Bio

namespace BtbuOs.Bio

open Machine

variable {Data : Type} {zero : Data} {disk : Nat → Data} {w after : World Data} {trace : List (Event Data)}
  {c : Bcache Data} {b other : BufId} {blockno : Nat} {hold : Hold} {data : Data}

/-- The buffers form one circular list, each hold is counted in a buffer of its block, and the buffers agree with the disk. -/
structure Sound (disk : Nat → Data) (w : World Data) (trace : List (Event Data)) : Prop where
  linked : ∃ order, w.cache.links.Cycle order ∧ ∀ b, b ∈ order
  unique : ∀ b other, (w.cache.buf b).dev = rootdev → (w.cache.buf other).dev = rootdev →
    (w.cache.buf b).blockno = (w.cache.buf other).blockno → b = other
  held : ∀ hold ∈ w.holds, (w.cache.buf hold.1).dev = rootdev ∧ (w.cache.buf hold.1).blockno = hold.2
  counted : ∀ b, (w.cache.buf b).refcnt = holders w b
  bounded : ∀ b, holders w b < 2 ^ 32
  loaded : ∀ b, (w.cache.buf b).dev = rootdev → (w.cache.buf b).valid = true
  clean : ∀ b, (w.cache.buf b).dev = rootdev → w.changed b = false →
    (w.cache.buf b).data = w.cache.disk (w.cache.buf b).blockno
  claimed : ∀ b, w.changed b = true → 0 < holders w b
  written : w.cache.disk = latest disk trace

namespace Bcache

@[simp] theorem setBuf_self (c : Bcache Data) (b : BufId) (buf : Buf Data) : (c.setBuf b buf).buf b = buf :=
  Function.update_self ..

theorem setBuf_of_ne (c : Bcache Data) (buf : Buf Data) (apart : other ≠ b) : (c.setBuf b buf).buf other = c.buf other :=
  Function.update_of_ne apart ..

end Bcache

theorem latest_append (disk : Nat → Data) (trace : List (Event Data)) (event : Event Data) :
    latest disk (trace ++ [event]) = match event with
      | .read .. => latest disk trace
      | .wrote blockno data => Function.update (latest disk trace) blockno data := by
  rw [latest, List.foldl_append]
  rfl

theorem cycle_binit (zero : Data) (disk : Nat → Data) :
    (binit zero disk).links.Cycle (List.finRange nbuf).reverse := by
  have linked (items done : List BufId) (l : Links BufId) (cycle : l.Cycle done) (nodup : items.Nodup)
      (apart : ∀ b ∈ items, b ∉ done) : (items.foldl Links.insert l).Cycle (items.reverse ++ done) := by
    induction items generalizing done l with
    | nil => exact cycle
    | cons b rest ih =>
        obtain ⟨fresh, nodup⟩ := List.nodup_cons.mp nodup
        rw [List.foldl_cons, List.reverse_cons, List.append_assoc]
        apply ih (b :: done) _ (cycle.insert (apart b List.mem_cons_self)) nodup
        intro node member
        rw [List.mem_cons, not_or]
        constructor
        · rintro rfl
          exact fresh member
        · exact apart node (List.mem_cons_of_mem _ member)
  have cycle := linked (List.finRange nbuf) [] Links.alone Links.cycle_alone (List.nodup_finRange _) (by simp)
  rwa [List.append_nil] at cycle

theorem sound_start (zero : Data) (disk : Nat → Data) : Sound disk (start zero disk) [] where
  linked := ⟨_, cycle_binit zero disk, fun b => List.mem_reverse.mpr (List.mem_finRange b)⟩
  unique b other dev := by simp [start, binit, rootdev] at dev
  held hold member := by simp [start] at member
  counted b := rfl
  bounded b := by simp [holders, start]
  loaded b dev := by simp [start, binit, rootdev] at dev
  clean b dev := by simp [start, binit, rootdev] at dev
  claimed b changed := by simp [start] at changed
  written := rfl

theorem holders_pos : 0 < holders w b ↔ ∃ blockno, (b, blockno) ∈ w.holds := by
  simp [holders, List.countP_pos_iff]

theorem caches_iff : caches c rootdev blockno b = true ↔ (c.buf b).dev = rootdev ∧ (c.buf b).blockno = blockno := by
  simp [caches]

/-- One more block than the buffers of a full cache is too many. -/
theorem card_insert_lt {full blocks : Finset Nat} (size : full.card = nbuf) (fresh : blockno ∉ full)
    (inside : full ⊆ blocks) : nbuf < (insert blockno blocks).card := by
  have more := Finset.card_le_card (Finset.insert_subset_insert blockno inside)
  rw [Finset.card_insert_of_notMem fresh, size] at more
  exact more

/-- A buffer without references is left when the block is not cached, because at most `NBUF` buffers are held. -/
theorem Sound.spare (sound : Sound disk w trace) (allowed : Disciplined w trace (.bread blockno))
    (absent : ∀ b, caches w.cache rootdev blockno b = false) : ∃ b, (w.cache.buf b).refcnt = 0 := by
  by_contra! used
  have kept (b : BufId) : ∃ n, (b, n) ∈ w.holds := by
    apply holders_pos.mp
    rw [← sound.counted]
    exact Nat.pos_of_ne_zero (used b)
  have inside (b : BufId) : (w.cache.buf b).dev = rootdev ∧ (w.cache.buf b).blockno ∈ (w.holds.map Prod.snd).toFinset := by
    obtain ⟨n, member⟩ := kept b
    obtain ⟨dev, block⟩ := sound.held _ member
    exact ⟨dev, List.mem_toFinset.mpr (List.mem_map.mpr ⟨_, member, block.symm⟩)⟩
  have injective : Function.Injective fun b => (w.cache.buf b).blockno :=
    fun b other same => sound.unique b other (inside b).1 (inside other).1 same
  have blocks : Finset.univ.image (fun b => (w.cache.buf b).blockno) ⊆ (w.holds.map Prod.snd).toFinset := by
    intro n member
    obtain ⟨b, -, rfl⟩ := Finset.mem_image.mp member
    exact (inside b).2
  have fresh : blockno ∉ Finset.univ.image fun b => (w.cache.buf b).blockno := by
    intro member
    obtain ⟨b, -, same⟩ := Finset.mem_image.mp member
    have cached := caches_iff.mpr ⟨(inside b).1, same⟩
    rw [absent b] at cached
    exact Bool.false_ne_true cached
  have size : (Finset.univ.image fun b => (w.cache.buf b).blockno).card = nbuf := by
    rw [Finset.card_image_of_injective _ injective, Finset.card_univ, Fintype.card_fin]
  exact absurd allowed (Nat.not_le.mpr (card_insert_lt size fresh blocks))

section Search

variable {order : List BufId}

theorem length_le_nbuf (cycle : c.links.Cycle order) : order.length ≤ nbuf := by
  have bound := cycle.nodup.length_le_card
  rwa [Fintype.card_fin] at bound

/-- The forward walk of `bget` takes the first buffer of the block. -/
theorem bread_cached (cycle : c.links.Cycle order) (found : order.find? (caches c rootdev blockno) = some b)
    (valid : (c.buf b).valid = true) : bread c rootdev blockno =
      some (b, c.setBuf b { c.buf b with refcnt := ((c.buf b).refcnt + 1) % 2 ^ 32 }) := by
  have forward := cycle.walk_next (caches c rootdev blockno) (length_le_nbuf cycle)
  simp [bread, bget, forward, found, Bcache.setBuf, valid]

/-- The backward walk of `bget` takes the last buffer without references. -/
theorem bread_recycled (cycle : c.links.Cycle order) (absent : order.find? (caches c rootdev blockno) = none)
    (spare : order.reverse.find? (fun b => (c.buf b).refcnt = 0) = some b) : bread c rootdev blockno =
      some (b, c.setBuf b { valid := true, dev := rootdev, blockno, refcnt := 1, data := c.disk blockno }) := by
  have forward := cycle.walk_next (caches c rootdev blockno) (length_le_nbuf cycle)
  have backward := cycle.walk_prev (fun b => (c.buf b).refcnt = 0) (length_le_nbuf cycle)
  simp [bread, bget, forward, absent, backward, spare, Bcache.setBuf, virtioDiskRw]

end Search

/-- A `bread` takes the buffer of the block, or loads the block into a buffer without references. -/
theorem Sound.fetch (sound : Sound disk w trace) (allowed : Disciplined w trace (.bread blockno)) :
    (∃ b, caches w.cache rootdev blockno b = true ∧ bread w.cache rootdev blockno =
      some (b, w.cache.setBuf b { w.cache.buf b with refcnt := ((w.cache.buf b).refcnt + 1) % 2 ^ 32 })) ∨
    ((∀ b, caches w.cache rootdev blockno b = false) ∧ ∃ b, (w.cache.buf b).refcnt = 0 ∧
      bread w.cache rootdev blockno = some (b, w.cache.setBuf b
        { valid := true, dev := rootdev, blockno, refcnt := 1, data := w.cache.disk blockno })) := by
  obtain ⟨order, cycle, all⟩ := sound.linked
  cases search : order.find? (caches w.cache rootdev blockno) with
  | some b =>
      have cached := List.find?_some search
      exact .inl ⟨b, cached, bread_cached cycle search (sound.loaded b (caches_iff.mp cached).1)⟩
  | none =>
      have absent : ∀ b, caches w.cache rootdev blockno b = false := by
        intro b
        have failed := List.find?_eq_none.mp search b (all b)
        rwa [Bool.not_eq_true] at failed
      obtain ⟨free, unused⟩ := sound.spare allowed absent
      cases spare : order.reverse.find? (fun b => (w.cache.buf b).refcnt = 0) with
      | none =>
          have failed := List.find?_eq_none.mp spare free (List.mem_reverse.mpr (all free))
          simp [unused] at failed
      | some b =>
          have zero := List.find?_some spare
          rw [decide_eq_true_eq] at zero
          exact .inr ⟨absent, b, zero, bread_recycled cycle search spare⟩

theorem holders_hold (w : World Data) (cache : Bcache Data) (b other : BufId) (blockno : Nat) :
    holders { w with cache, holds := (b, blockno) :: w.holds } other = holders w other + if b = other then 1 else 0 := by
  simp [holders, List.countP_cons]

theorem holders_release (w : World Data) (cache : Bcache Data) (member : hold ∈ w.holds) (other : BufId) :
    holders { w with cache, holds := w.holds.erase hold } other = holders w other - if hold.1 = other then 1 else 0 := by
  simp [holders, List.countP_erase, member]

/-- The holds of a buffer are holds of its block. -/
theorem Sound.holders_le (sound : Sound disk w trace) (b : BufId) :
    holders w b ≤ w.holds.countP fun hold => hold.2 = (w.cache.buf b).blockno := by
  apply List.countP_mono_left
  intro hold member same
  rw [decide_eq_true_eq] at same ⊢
  rw [← (sound.held hold member).2, same]

/-- A `bread` of a cached block counts one more hold. -/
theorem Sound.hit (sound : Sound disk w trace) (cached : caches w.cache rootdev blockno b = true)
    (room : (w.holds.countP fun hold => hold.2 = blockno) + 1 < 2 ^ 32) :
    Sound disk { w with
      cache := w.cache.setBuf b { w.cache.buf b with refcnt := ((w.cache.buf b).refcnt + 1) % 2 ^ 32 }
      holds := (b, blockno) :: w.holds } (trace ++ [.read blockno b data]) := by
  obtain ⟨dev, block⟩ := caches_iff.mp cached
  have below := sound.holders_le b
  rw [block] at below
  have same (x : BufId) : ((w.cache.setBuf b { w.cache.buf b with refcnt := ((w.cache.buf b).refcnt + 1) % 2 ^ 32 }).buf x) =
      { w.cache.buf x with refcnt := holders w x + if b = x then 1 else 0 } := by
    by_cases own : x = b
    · subst own
      rw [Bcache.setBuf_self, sound.counted, Nat.mod_eq_of_lt (by omega), if_pos rfl]
    · rw [Bcache.setBuf_of_ne _ _ own, if_neg (Ne.symm own), Nat.add_zero, ← sound.counted]
  constructor
  · exact sound.linked
  · intro x y
    simp only [same]
    exact sound.unique x y
  · intro hold member
    simp only [same]
    cases member with
    | head => exact ⟨dev, block⟩
    | tail _ earlier => exact sound.held hold earlier
  · intro x
    rw [holders_hold]
    simp only [same]
  · intro x
    rw [holders_hold]
    split
    · rename_i own
      subst own
      omega
    · exact sound.bounded x
  · intro x
    simp only [same]
    exact sound.loaded x
  · intro x
    simp only [same]
    exact sound.clean x
  · intro x changed
    rw [holders_hold]
    exact Nat.lt_of_lt_of_le (sound.claimed x changed) (Nat.le_add_right _ _)
  · rw [latest_append]
    exact sound.written

/-- A `bread` of another block takes a buffer that nobody holds. -/
theorem Sound.miss (sound : Sound disk w trace) (absent : ∀ b, caches w.cache rootdev blockno b = false)
    (unused : (w.cache.buf b).refcnt = 0) :
    Sound disk { w with
      cache := w.cache.setBuf b { valid := true, dev := rootdev, blockno, refcnt := 1, data := w.cache.disk blockno }
      holds := (b, blockno) :: w.holds } (trace ++ [.read blockno b data]) := by
  have free : holders w b = 0 := by rw [← sound.counted, unused]
  have other (x : BufId) (dev : (w.cache.buf x).dev = rootdev) : (w.cache.buf x).blockno ≠ blockno := by
    intro block
    have cached := caches_iff.mpr ⟨dev, block⟩
    rw [absent x] at cached
    exact Bool.false_ne_true cached
  constructor
  · exact sound.linked
  · intro x y
    by_cases first : x = b <;> by_cases second : y = b
    · intros
      rw [first, second]
    · subst first
      rw [Bcache.setBuf_self, Bcache.setBuf_of_ne _ _ second]
      intro _ dev block
      exact absurd block.symm (other y dev)
    · subst second
      rw [Bcache.setBuf_self, Bcache.setBuf_of_ne _ _ first]
      intro dev _ block
      exact absurd block (other x dev)
    · rw [Bcache.setBuf_of_ne _ _ first, Bcache.setBuf_of_ne _ _ second]
      exact sound.unique x y
  · intro hold member
    cases member with
    | head => rw [Bcache.setBuf_self]; exact ⟨rfl, rfl⟩
    | tail _ earlier =>
        have apart : hold.1 ≠ b := by
          rintro rfl
          have positive := holders_pos.mpr ⟨hold.2, earlier⟩
          omega
        rw [Bcache.setBuf_of_ne _ _ apart]
        exact sound.held hold earlier
  · intro x
    rw [holders_hold]
    by_cases own : x = b
    · subst own
      rw [Bcache.setBuf_self, if_pos rfl, free]
    · rw [Bcache.setBuf_of_ne _ _ own, if_neg (Ne.symm own)]
      exact sound.counted x
  · intro x
    rw [holders_hold]
    split
    · rename_i own
      subst own
      rw [free]
      decide
    · exact sound.bounded x
  · intro x
    by_cases own : x = b
    · subst own
      rw [Bcache.setBuf_self]
      intro _
      rfl
    · rw [Bcache.setBuf_of_ne _ _ own]
      exact sound.loaded x
  · intro x
    by_cases own : x = b
    · subst own
      rw [Bcache.setBuf_self]
      intro _ _
      rfl
    · rw [Bcache.setBuf_of_ne _ _ own]
      exact sound.clean x
  · intro x changed
    rw [holders_hold]
    exact Nat.lt_of_lt_of_le (sound.claimed x changed) (Nat.le_add_right _ _)
  · rw [latest_append]
    exact sound.written

/-- A change of the data leaves the rest of the buffer alone. -/
theorem Sound.modify (sound : Sound disk w trace) (member : hold ∈ w.holds) (data : Data) :
    Sound disk { w with
      cache := w.cache.setBuf hold.1 { w.cache.buf hold.1 with data }
      changed := Function.update w.changed hold.1 true } trace := by
  have same (x : BufId) : (w.cache.setBuf hold.1 { w.cache.buf hold.1 with data }).buf x =
      { w.cache.buf x with data := if x = hold.1 then data else (w.cache.buf x).data } := by
    by_cases own : x = hold.1
    · rw [own, Bcache.setBuf_self, if_pos rfl]
    · rw [Bcache.setBuf_of_ne _ _ own, if_neg own]
  constructor
  · exact sound.linked
  · intro x y
    simp only [same]
    exact sound.unique x y
  · intro other inside
    simp only [same]
    exact sound.held other inside
  · intro x
    simp only [same]
    exact sound.counted x
  · exact sound.bounded
  · intro x
    simp only [same]
    exact sound.loaded x
  · intro x
    simp only [same]
    by_cases own : x = hold.1
    · simp [own]
    · rw [Function.update_of_ne own, if_neg own]
      exact sound.clean x
  · intro x
    by_cases own : x = hold.1
    · intro _
      rw [own]
      exact holders_pos.mpr ⟨hold.2, member⟩
    · show Function.update w.changed hold.1 true x = true → 0 < holders w x
      rw [Function.update_of_ne own]
      exact sound.claimed x
  · exact sound.written

/-- A `bwrite` gives the block of the hold the data of its buffer. -/
theorem Sound.flush (sound : Sound disk w trace) (member : hold ∈ w.holds) :
    Sound disk { w with
      cache := bwrite w.cache hold.1
      changed := Function.update w.changed hold.1 false } (trace ++ [.wrote hold.2 (w.cache.buf hold.1).data]) := by
  obtain ⟨dev, block⟩ := sound.held hold member
  constructor
  · exact sound.linked
  · exact sound.unique
  · exact sound.held
  · exact sound.counted
  · exact sound.bounded
  · exact sound.loaded
  · intro x root
    show Function.update w.changed hold.1 false x = false → (w.cache.buf x).data =
      Function.update w.cache.disk (w.cache.buf hold.1).blockno (w.cache.buf hold.1).data (w.cache.buf x).blockno
    by_cases own : x = hold.1
    · rw [own, Function.update_self, Function.update_self]
      intro _
      rfl
    · have apart : (w.cache.buf x).blockno ≠ (w.cache.buf hold.1).blockno :=
        fun same => own (sound.unique x hold.1 root dev same)
      rw [Function.update_of_ne own, Function.update_of_ne apart]
      exact sound.clean x root
  · intro x
    show Function.update w.changed hold.1 false x = true → 0 < holders w x
    by_cases own : x = hold.1
    · simp [own]
    · rw [Function.update_of_ne own]
      exact sound.claimed x
  · rw [latest_append, ← sound.written, ← block]
    rfl

/-- A release counts one hold less, and the last one moves the buffer to the front. -/
theorem Sound.release (sound : Sound disk w trace) (member : hold ∈ w.holds)
    (settled : holders w hold.1 = 1 → w.changed hold.1 = false) :
    Sound disk { w with cache := brelse w.cache hold.1, holds := w.holds.erase hold } trace := by
  have positive : 0 < holders w hold.1 := holders_pos.mpr ⟨hold.2, member⟩
  have bound := sound.bounded hold.1
  have same (x : BufId) : (brelse w.cache hold.1).buf x =
      { w.cache.buf x with refcnt := holders w x - if hold.1 = x then 1 else 0 } := by
    have rest : (brelse w.cache hold.1).buf x = (w.cache.setBuf hold.1 { w.cache.buf hold.1 with
        refcnt := ((w.cache.buf hold.1).refcnt + 2 ^ 32 - 1) % 2 ^ 32 }).buf x := by
      unfold brelse
      dsimp only
      split <;> rfl
    rw [rest]
    by_cases own : x = hold.1
    · have count : (holders w hold.1 + 2 ^ 32 - 1) % 2 ^ 32 = holders w hold.1 - 1 := by omega
      rw [own, Bcache.setBuf_self, sound.counted, count, if_pos rfl]
    · rw [Bcache.setBuf_of_ne _ _ own, if_neg (Ne.symm own), Nat.sub_zero, ← sound.counted]
  have kept : (brelse w.cache hold.1).disk = w.cache.disk := by
    unfold brelse
    dsimp only
    split <;> rfl
  constructor
  · obtain ⟨order, cycle, all⟩ := sound.linked
    show ∃ order, (brelse w.cache hold.1).links.Cycle order ∧ ∀ b, b ∈ order
    unfold brelse
    dsimp only
    split
    · obtain ⟨left, right, rfl⟩ := List.append_of_mem (all hold.1)
      have fresh := (List.nodup_cons.mp (List.nodup_middle.mp cycle.nodup)).1
      refine ⟨_, cycle.unlink.insert fresh, fun b => ?_⟩
      exact List.perm_middle.mem_iff.mp (all b)
    · exact ⟨order, cycle, all⟩
  · intro x y
    simp only [same]
    exact sound.unique x y
  · intro other inside
    simp only [same]
    exact sound.held other (List.mem_of_mem_erase inside)
  · intro x
    rw [holders_release _ _ member]
    simp only [same]
  · intro x
    rw [holders_release _ _ member]
    exact Nat.lt_of_le_of_lt (Nat.sub_le _ _) (sound.bounded x)
  · intro x
    simp only [same]
    exact sound.loaded x
  · intro x
    simp only [same, kept]
    exact sound.clean x
  · intro x changed
    rw [holders_release _ _ member]
    have claimed := sound.claimed x changed
    split
    · rename_i own
      subst own
      have more : holders w hold.1 ≠ 1 := by
        intro last
        have written : w.changed hold.1 = true := changed
        rw [settled last] at written
        exact Bool.false_ne_true written
      omega
    · exact claimed
  · exact kept.trans sound.written

theorem Sound.preserved {action : Action Data} {events : List (Event Data)} (sound : Sound disk w trace)
    (allowed : Counted w trace action) (stepped : step w action = some (after, events)) :
    Sound disk after (trace ++ events) := by
  cases action with
  | bread blockno =>
      have room := allowed.2 blockno rfl
      rcases sound.fetch allowed.1 with ⟨b, cached, read⟩ | ⟨absent, b, unused, read⟩
      · simp only [step, read, Option.some.injEq, Prod.mk.injEq] at stepped
        obtain ⟨rfl, rfl⟩ := stepped
        exact sound.hit cached room
      · simp only [step, read, Option.some.injEq, Prod.mk.injEq] at stepped
        obtain ⟨rfl, rfl⟩ := stepped
        exact sound.miss absent unused
  | modify hold data =>
      simp only [step, Option.some.injEq, Prod.mk.injEq] at stepped
      obtain ⟨rfl, rfl⟩ := stepped
      rw [List.append_nil]
      exact sound.modify allowed.1 data
  | bwrite hold =>
      simp only [step, Option.some.injEq, Prod.mk.injEq] at stepped
      obtain ⟨rfl, rfl⟩ := stepped
      exact sound.flush allowed.1
  | brelse hold =>
      simp only [step, Option.some.injEq, Prod.mk.injEq] at stepped
      obtain ⟨rfl, rfl⟩ := stepped
      rw [List.append_nil]
      exact sound.release allowed.1.1 allowed.1.2

/-- Every disciplined run of the cache is sound. -/
theorem reached_sound (run : Reaches step Counted (· = start zero disk) w trace) : Sound disk w trace := by
  apply run.invariant (Sound disk)
  · rintro state rfl
    exact sound_start zero disk
  · intro state trace action after events sound allowed stepped
    exact sound.preserved allowed stepped

/-- The buffer cache is transparent: a block has one buffer, the list keeps every buffer, a held buffer keeps its block,
and every `bread` returns the latest content of the block unless the holders of its buffer changed it since. -/
theorem buffer_cache (run : Reaches step Counted (· = start zero disk) w trace) :
    (∀ b other, (w.cache.buf b).dev = rootdev → (w.cache.buf other).dev = rootdev →
      (w.cache.buf b).blockno = (w.cache.buf other).blockno → b = other) ∧
    (∃ order, w.cache.links.Cycle order ∧ ∀ b, b ∈ order) ∧
    (∀ hold ∈ w.holds, (w.cache.buf hold.1).dev = rootdev ∧ (w.cache.buf hold.1).blockno = hold.2 ∧
      0 < (w.cache.buf hold.1).refcnt) ∧
    ∀ blockno, Disciplined w trace (.bread blockno) → ∃ b after data,
      step w (.bread blockno) = some (after, [.read blockno b data]) ∧ (b, blockno) ∈ after.holds ∧
      (after.cache.buf b).data = data ∧
      (∀ hold ∈ w.holds, (after.cache.buf hold.1).data = (w.cache.buf hold.1).data) ∧
      (((b, blockno) ∈ w.holds → w.changed b = false) → data = latest disk trace blockno) ∧
      ((b, blockno) ∈ w.holds → data = (w.cache.buf b).data) := by
  have sound := reached_sound run
  refine ⟨sound.unique, sound.linked, ?_, ?_⟩
  · intro hold member
    obtain ⟨dev, block⟩ := sound.held hold member
    refine ⟨dev, block, ?_⟩
    rw [sound.counted]
    exact holders_pos.mpr ⟨hold.2, member⟩
  · intro blockno allowed
    rcases sound.fetch allowed with ⟨b, cached, read⟩ | ⟨absent, b, unused, read⟩
    · obtain ⟨dev, block⟩ := caches_iff.mp cached
      refine ⟨b, _, _, by simp only [step, read]; rfl, List.mem_cons_self, rfl, ?_, ?_, ?_⟩
      · intro hold _
        by_cases own : hold.1 = b
        · rw [own, Bcache.setBuf_self]
        · rw [Bcache.setBuf_of_ne _ _ own]
      · intro settled
        rw [Bcache.setBuf_self, ← sound.written, ← block]
        apply sound.clean b dev
        by_contra changed
        rw [Bool.not_eq_false] at changed
        obtain ⟨n, member⟩ := holders_pos.mp (sound.claimed b changed)
        have same : n = blockno := (sound.held _ member).2.symm.trans block
        rw [settled (same ▸ member)] at changed
        exact Bool.false_ne_true changed
      · intro _
        rw [Bcache.setBuf_self]
    · have free : ∀ hold ∈ w.holds, hold.1 ≠ b := by
        rintro hold member rfl
        have positive := holders_pos.mpr ⟨hold.2, member⟩
        rw [← sound.counted, unused] at positive
        exact Nat.lt_irrefl 0 positive
      refine ⟨b, _, _, by simp only [step, read]; rfl, List.mem_cons_self, rfl, ?_, ?_, ?_⟩
      · intro hold member
        rw [Bcache.setBuf_of_ne _ _ (free hold member)]
      · intro _
        rw [Bcache.setBuf_self, sound.written]
      · intro member
        exact absurd rfl (free _ member)

instance (w : World Data) (trace : List (Event Data)) (action : Action Data) : Decidable (Disciplined w trace action) := by
  cases action <;> unfold Disciplined <;> infer_instance

instance (w : World Data) (trace : List (Event Data)) (action : Action Data) : Decidable (Counted w trace action) :=
  match action with
  | .bread blockno => decidable_of_iff (Disciplined w trace (.bread blockno) ∧
      (w.holds.countP fun hold => hold.2 = blockno) + 1 < 2 ^ 32) (by simp [Counted])
  | .modify hold data => decidable_of_iff (Disciplined w trace (.modify hold data)) (by simp [Counted])
  | .bwrite hold => decidable_of_iff (Disciplined w trace (.bwrite hold)) (by simp [Counted])
  | .brelse hold => decidable_of_iff (Disciplined w trace (.brelse hold)) (by simp [Counted])

/-- A written block is read back after the other blocks took all the buffers. -/
def evictions : List (Action Nat) :=
  [.bread 5, .modify (0, 5) 77, .bwrite (0, 5), .brelse (0, 5)] ++
    (List.range nbuf).flatMap fun i => [.bread (6 + i), .brelse (Fin.ofNat nbuf (i + 1), 6 + i)]

set_option maxRecDepth 4096 in
theorem buffer_cache_run : ∃ w : World Nat, (∀ b, (w.cache.buf b).blockno ≠ 5) ∧
    ∃ b after, step w (.bread 5) = some (after, [.read 5 b 77]) := by
  obtain ⟨w, trace, run, passed⟩ := replay_witness step Counted (· = start 0 id) evictions (start 0 id) rfl
    (fun w trace => latest id trace 5 = 77 ∧ w.holds = [] ∧ ∀ b, (w.cache.buf b).blockno ≠ 5) (by decide +kernel)
  rw [decide_eq_true_eq] at passed
  obtain ⟨written, idle, evicted⟩ := passed
  obtain ⟨b, after, data, stepped, -, -, -, content, -⟩ := (buffer_cache run).2.2.2 5 (by rw [Disciplined, idle]; decide)
  have same := content (by simp [idle])
  rw [same, written] at stepped
  exact ⟨w, evicted, b, after, stepped⟩

section Piled

/-- A block that is read again and again without a release is in the least recently used buffer. -/
structure Piled (count : Nat) (w : World Nat) : Prop where
  linked : ∃ order, w.cache.links.Cycle order ∧ (∀ b, b ∈ order) ∧ order.reverse.head? = some 0
  holds : w.holds = List.replicate count (0, 5)
  own : w.cache.buf 0 = { valid := true, dev := rootdev, blockno := 5, refcnt := count % 2 ^ 32, data := 5 }
  others : ∀ b, b ≠ 0 → (w.cache.buf b).dev = 0
  blocks : w.cache.disk = id

/-- The first `bread` takes the buffer at the end of the list. -/
theorem piled_one : ∃ after, step (start 0 id) (.bread 5) = some (after, [.read 5 0 5]) ∧ Piled 1 after := by
  refine ⟨_, rfl, ⟨_, cycle_binit 0 id, ?_, rfl⟩, rfl, rfl, ?_, rfl⟩
  · intro b
    exact List.mem_reverse.mpr (List.mem_finRange b)
  · intro b apart
    simp [Bcache.setBuf, virtioDiskRw, Function.update_of_ne apart, start, binit]

variable {count : Nat} {w : World Nat}

theorem Piled.disciplined (piled : Piled count w) (trace : List (Event Nat)) (blockno : Nat) :
    Disciplined w trace (.bread blockno) := by
  have inside : insert blockno (w.holds.map Prod.snd).toFinset ⊆ {blockno, 5} := by
    rw [piled.holds]
    intro n member
    simp at member ⊢
    omega
  exact (Finset.card_le_card inside).trans (Finset.card_le_two.trans (by decide))

theorem Piled.cached (piled : Piled count w) (blockno : Nat) (b : BufId) :
    caches w.cache rootdev blockno b = true ↔ blockno = 5 ∧ b = 0 := by
  rw [caches_iff]
  by_cases own : b = 0
  · subst own
    simp [piled.own, eq_comm]
  · simp [piled.others b own, own, rootdev]

theorem Piled.next (piled : Piled count w) :
    ∃ after, step w (.bread 5) = some (after, [.read 5 0 5]) ∧ Piled (count + 1) after := by
  obtain ⟨order, cycle, all, last⟩ := piled.linked
  have search : order.find? (caches w.cache rootdev 5) = some 0 := by
    cases found : order.find? (caches w.cache rootdev 5) with
    | none =>
        have failed := List.find?_eq_none.mp found 0 (all 0)
        simp [piled.cached] at failed
    | some b => rw [((piled.cached 5 b).mp (List.find?_some found)).2]
  have read := bread_cached cycle search (by rw [piled.own])
  refine ⟨{ w with
    cache := w.cache.setBuf 0 { w.cache.buf 0 with refcnt := ((w.cache.buf 0).refcnt + 1) % 2 ^ 32 }
    holds := (0, 5) :: w.holds }, ?_, ?_⟩
  · simp [step, read, piled.own]
  · constructor
    · exact ⟨order, cycle, all, last⟩
    · rw [piled.holds]
      rfl
    · simp [piled.own]
    · intro b apart
      rw [Bcache.setBuf_of_ne _ _ apart]
      exact piled.others b apart
    · exact piled.blocks

theorem piled_reached (count : Nat) :
    ∃ w trace, Reaches step Disciplined (· = start 0 id) w trace ∧ Piled (count + 1) w := by
  induction count with
  | zero =>
      obtain ⟨after, stepped, piled⟩ := piled_one
      refine ⟨after, _, .next (.start rfl) ?_ stepped, piled⟩
      show _ ≤ _
      decide
  | succ count ih =>
      obtain ⟨w, trace, run, piled⟩ := ih
      obtain ⟨after, stepped, more⟩ := piled.next
      exact ⟨after, _, .next run (piled.disciplined trace 5) stepped, more⟩

/-- After 2^32 reads the count is zero and another block takes the buffer. -/
theorem Piled.recycled (piled : Piled (2 ^ 32) w) :
    ∃ after, step w (.bread 6) = some (after, [.read 6 0 6]) ∧ (0, 5) ∈ after.holds ∧ (after.cache.buf 0).blockno = 6 := by
  obtain ⟨order, cycle, all, last⟩ := piled.linked
  have search : order.find? (caches w.cache rootdev 6) = none := by
    apply List.find?_eq_none.mpr
    intro b _
    simp [piled.cached]
  have spare : order.reverse.find? (fun b => (w.cache.buf b).refcnt = 0) = some 0 := by
    obtain ⟨rest, reversed⟩ := List.head?_eq_some_iff.mp last
    simp [reversed, piled.own]
  have read := bread_recycled cycle search spare
  refine ⟨{ w with
    cache := w.cache.setBuf 0 { valid := true, dev := rootdev, blockno := 6, refcnt := 1, data := w.cache.disk 6 }
    holds := (0, 6) :: w.holds }, ?_, ?_, ?_⟩
  · simp [step, read, piled.blocks]
  · rw [piled.holds]
    exact List.mem_cons_of_mem _ List.mem_cons_self
  · rw [Bcache.setBuf_self]

end Piled

/-- A second `bread` returns a change that was not written yet, and the holders of one buffer can overflow its count. -/
theorem unwritten_change_read :
    (∃ w : World Nat, Reaches step Disciplined (· = start 0 id) w [.read 5 0 5, .read 5 0 77, .wrote 5 77] ∧ w.holds = []) ∧
    latest id [Event.read 5 0 5] 5 = 5 ∧
    ∃ (w after : World Nat) (trace : List (Event Nat)), Reaches step Disciplined (· = start 0 id) w trace ∧
      Disciplined w trace (.bread 6) ∧ step w (.bread 6) = some (after, [.read 6 0 6]) ∧
      (0, 5) ∈ after.holds ∧ (after.cache.buf 0).blockno = 6 := by
  refine ⟨?_, rfl, ?_⟩
  · obtain ⟨w, trace, run, passed⟩ := replay_witness step Disciplined (· = start 0 id)
      [.bread 5, .modify (0, 5) 77, .bread 5, .bwrite (0, 5), .brelse (0, 5), .brelse (0, 5)] (start 0 id) rfl
      (fun w trace => trace = [.read 5 0 5, .read 5 0 77, .wrote 5 77] ∧ w.holds = []) (by decide +kernel)
    rw [decide_eq_true_eq] at passed
    exact ⟨w, passed.1 ▸ run, passed.2⟩
  · obtain ⟨w, trace, run, piled⟩ := piled_reached (2 ^ 32 - 1)
    obtain ⟨after, stepped, held, block⟩ := piled.recycled
    exact ⟨w, after, trace, run, piled.disciplined trace 6, stepped, held, block⟩

end BtbuOs.Bio
