import Xv6.Mem.Image
import Xv6.Process.ForkSpec

/-!
# Building the image of a program

`exec` without its system calls: the loop over the program headers, the guard page and the
stack.
-/

namespace Xv6.Process

open Lib List Mem

variable [Layout] {s s' : Phys} {R : Tag → Option Nat} {o o' : Nat → Owner} {t : Tag}
variable {r n : Nat}

/-! ## Loading segments -/

/-- The entries of an image under construction: `n` user pages that user code
may access. -/
structure Loadable (f : Nat → Nat) (n : Nat) : Prop where
  user : UserPages f n
  access : ∀ v, v < n → f v &&& pteU ≠ 0
  sealed : Sealed f

section

omit [Layout]

lemma Loadable.congr {f g : Nat → Nat} (h : Loadable f n) (hfg : ∀ v, v < 512 ^ 3 → g v = f v) :
    Loadable g n where
  user := h.user.congr fun v hv _ => hfg v hv
  access := fun v hv => by
    rw [hfg v (h.user.userVpn hv).1]
    exact h.access v hv
  sealed := h.sealed.congr hfg

lemma leafPte_user {q xperm : Nat} (hx : xperm < 1024) :
    leafPte q (pteR ||| pteU ||| xperm) &&& pteU ≠ 0 := by
  have hperm : pteR ||| pteU ||| xperm < 1024 := Nat.or_lt_two_pow (n := 10) (by decide) hx
  have hmod := leafPte_mod (q := q) hperm
  have hbit : (pteR ||| pteU ||| xperm ||| 1) / 16 % 2 = 1 := by
    have htest : (pteR ||| pteU ||| xperm ||| 1).testBit 4 = true := by
      have hu : (pteR ||| pteU).testBit 4 = true := by decide
      simp [Nat.testBit_or, hu]
    rw [Nat.testBit_eq_decide_div_mod_eq, decide_eq_true_eq] at htest
    exact htest
  rw [and_pteU]
  omega

lemma flags2perm_lt (flags : Nat) : flags2perm flags < 1024 := by
  unfold flags2perm
  split <;> split <;> decide

end

section

omit [Layout]

lemma Loadable.visible {f : Nat → Nat} {va : Nat} (h : Loadable f n) (hva : va < 4096 * n) :
    Visible f va := by
  have hv : va / 4096 < n := by omega
  have hmod := h.user.mapped hv
  refine ⟨?_, ?_, h.access _ hv⟩
  · have hle := h.user.le
    unfold trapframeVpn at hle
    unfold maxVa
    omega
  · rw [and_pteV]
    omega

/-- The number of bytes that `n` pages hold. -/
lemma le_pages (sz : Nat) : sz ≤ 4096 * pages sz := by
  unfold pages
  omega

end

/-- The bytes that `loadseg` reads at byte `i` of a segment. -/
def Inode.part (ip : Inode) (offset sz i : Nat) : List UInt8 :=
  ip.readi ((offset + i) % 2 ^ 32) (if sz - i < pgSize then sz - i else pgSize)

/-- The bytes that the loop of `loadseg` reads from byte `i` on. -/
def Inode.parts (ip : Inode) (offset sz i : Nat) : Nat → List UInt8
  | 0 => []
  | more + 1 => ip.part offset sz i ++ ip.parts offset sz (i + pgSize) more

/-- The bytes that `loadseg` reads. -/
def Inode.segment (ip : Inode) (offset sz : Nat) : List UInt8 :=
  ip.parts offset sz 0 ((sz + pgSize - 1) / pgSize)

/-- One page of a segment, and the rest of the segment. -/
lemma Copied.part {f : Nat → Nat} {j v₀ sz : Nat} {part rest : List UInt8} {m m' : Bytes}
    (h : Heap s R o) (hR : R t = some r) (hf : ∀ v, v < 512 ^ 3 → pteAt s.mem r v = f v)
    (hl : Loadable f n) (hv : v₀ + j < n) (hlen : part.length = min (sz - 4096 * j) 4096)
    (hrest : Copied f (4096 * v₀ + 4096 * (j + 1)) rest
      (blit m (physAddr f (4096 * (v₀ + j))) part) m')
    (hlast : rest.length = sz - 4096 * (j + 1)) :
    Copied f (4096 * v₀ + 4096 * j) (part ++ rest) m m' := by
  have hva : 4096 * v₀ + 4096 * j = 4096 * (v₀ + j) := by omega
  rw [hva]
  refine Copied.round (n := part.length) (hl.visible (by omega)) (by simp) (by omega)
    (by rw [take_left]) ?_ fun {i k} hi hk he => ?_
  · rw [drop_left]
    by_cases hend : rest = []
    · subst hend
      exact ⟨fun hi => absurd hi (by simp), fun _ => hrest.kept fun i hi => absurd hi (by simp)⟩
    · have hpos : 0 < rest.length := length_pos_iff.mpr hend
      have hnext : 4096 * (v₀ + j) + part.length = 4096 * v₀ + 4096 * (j + 1) := by omega
      rw [hnext]
      exact hrest
  · have := physAddr_inj h hR hf hl.sealed (hl.visible (by omega)) hk he
    omega

/-- The loop of `loadseg`, from page `j` of the segment on. -/
lemma loadsegRounds_spec (hR : R t = some r) {f : Nat → Nat} (hl : Loadable f n) {ip : Inode}
    {offset sz v₀ : Nat} (hle : 4096 * v₀ + sz ≤ 4096 * n) :
    ∀ (more : Nat) {s : Phys} {j : Nat}, Heap s R o → (∀ v, v < 512 ^ 3 → pteAt s.mem r v = f v) →
      more = (sz - 4096 * j + 4095) / 4096 →
      Returns (loadsegRounds (4096 * r) (4096 * v₀) ip offset sz (4096 * j) more) s
        fun res s' => Poked R t s o s' ∧ (0 ≤ res →
          (ip.parts offset sz (4096 * j) more).length = sz - 4096 * j ∧
          Copied f (4096 * v₀ + 4096 * j) (ip.parts offset sz (4096 * j) more) s.mem s'.mem) := by
  intro more
  induction more with
  | zero =>
    intro s j h _ hmore
    refine returns_pure ⟨Poked.refl h, fun _ => ⟨?_, fun hi => absurd hi (by simp [Inode.parts]),
      fun _ => rfl⟩⟩
    rw [Inode.parts, length_nil]
    omega
  | succ more ih =>
    intro s j h hf hmore
    have hj : 4096 * j < sz := by omega
    have hv : v₀ + j < n := by omega
    have hlt := Nat.lt_of_lt_of_le hv hl.user.le
    have hva : (4096 * v₀ + 4096 * j) % 2 ^ 64 = 4096 * (v₀ + j) := by
      unfold trapframeVpn at hlt
      omega
    have hdown : pgRoundDown (4096 * (v₀ + j)) = 4096 * (v₀ + j) :=
      pgRoundDown_page (k := 0) (by decide)
    have hvis : Visible f (4096 * (v₀ + j)) := hl.visible (by omega)
    have hwalk := walkaddr_page h hR hf hl.sealed (4096 * (v₀ + j))
    rw [hdown] at hwalk
    rw [loadsegRounds, hva]
    refine hwalk.bind ?_
    rintro pa s₁ ⟨rfl, ⟨-, hbad⟩ | ⟨hpa, -, hpage⟩⟩
    · exact absurd hvis hbad
    · rw [if_neg hpa]
      have haddr : pa = physAddr f (4096 * (v₀ + j)) := by
        rw [hpage, physAddr]
        omega
      have hn : (if sz - 4096 * j < pgSize then sz - 4096 * j else pgSize) =
          min (sz - 4096 * j) 4096 := by
        unfold pgSize
        split <;> omega
      apply Mem.returns_storeBytes
      rw [show ip.readi _ _ = ip.part offset sz (4096 * j) from rfl, hn]
      have hlen : (ip.part offset sz (4096 * j)).length ≤ 4096 := by
        refine (ip.readi_le _ _).trans ?_
        rw [hn]
        omega
      have hown := hvis.owner h hR hf hl.sealed
      have hpoke := h.poke (k := 0) hown ((Nat.zero_add _).le.trans hlen)
      rw [show 4096 * (f (4096 * (v₀ + j) / 4096) / 1024) + 0 = pa by omega] at hpoke
      split
      next => exact returns_pure ⟨hpoke, fun hz => absurd hz (by decide)⟩
      next hfull =>
        have hfull' : (ip.part offset sz (4096 * j)).length = min (sz - 4096 * j) 4096 := by
          simpa using hfull
        refine (ih (j := j + 1) hpoke.heap (fun v hv => (hpoke.ptes h hR hv).trans (hf v hv))
          (by omega)).mono ?_
        rintro res s' ⟨hp, hres⟩
        refine ⟨hpoke.trans hp, fun hz => ?_⟩
        obtain ⟨hlast, hcopied⟩ := hres hz
        rw [haddr] at hcopied
        refine ⟨?_, Copied.part h hR hf hl hv hfull' hcopied hlast⟩
        rw [Inode.parts, length_append, hfull']
        have : (ip.parts offset sz (4096 * j + pgSize) more).length = sz - 4096 * (j + 1) := hlast
        omega

lemma loadseg_spec (h : Heap s R o) (hR : R t = some r)
    (hl : Loadable (fun v => pteAt s.mem r v) n) {va sz : Nat} (ip : Inode) (offset : Nat)
    (hva : va % pgSize = 0) (hle : va + sz ≤ 4096 * n) :
    Returns (loadseg (4096 * r) va ip offset sz) s fun res s' => Poked R t s o s' ∧ (0 ≤ res →
      (ip.segment offset sz).length = sz ∧
      Copied (fun v => pteAt s.mem r v) va (ip.segment offset sz) s.mem s'.mem) := by
  obtain ⟨v₀, rfl⟩ : ∃ v₀, va = 4096 * v₀ := ⟨va / 4096, by unfold pgSize at hva; omega⟩
  unfold loadseg
  exact loadsegRounds_spec hR hl hle _ (j := 0) h (fun _ _ => rfl) rfl

/-- `uvmalloc` keeps an image loadable. -/
lemma Loadable.grow {oldsz newsz xperm : Nat}
    (hch : Changed R t r (pages oldsz) s o s' o')
    (hl : Loadable (fun v => pteAt s.mem r v) (pages oldsz)) (hx : xperm < 1024)
    (hp : UserPages (fun v => pteAt s'.mem r v) (pages (max oldsz newsz)))
    (hg : Granted (fun v => pteAt s'.mem r v) (pteR ||| pteU ||| xperm) (pages oldsz)
      (pages (max oldsz newsz))) :
    Loadable (fun v => pteAt s'.mem r v) (pages (max oldsz newsz)) := by
  refine ⟨hp, fun v hv => ?_, hl.sealed.changed hch⟩
  by_cases hlt : v < pages oldsz
  · have he := hch.ptes (hp.userVpn hv).1 (.inl hlt)
    simp only [he]
    exact hl.access v hlt
  · obtain ⟨q, hq⟩ := hg v (by omega) hv
    simp only [hq]
    exact leafPte_user hx

/-- The pages of a process are pages of the area, so its size is small. -/
lemma le_of_pages (h : Heap s R o) (hR : R t = some r) {sz : Nat}
    (hp : UserPages (fun v => pteAt s.mem r v) (pages sz)) : sz ≤ 2 ^ 27 := by
  have harea := hp.le_area h hR
  have hle := le_pages sz
  omega

lemma small_of_pages (h : Heap s R o) (hR : R t = some r) {sz : Nat}
    (hp : UserPages (fun v => pteAt s.mem r v) (pages sz)) : sz < 2 ^ 40 :=
  (le_of_pages h hR hp).trans_lt (by decide)

/-! ## The program headers -/

/-- The program headers that the loop of `exec` reads, if it can read them all. -/
def Inode.headers (ip : Inode) (off : Nat) : Nat → Option (List Proghdr)
  | 0 => some []
  | n + 1 =>
    if (ip.readi off proghdrSize).length = proghdrSize then
      (ip.headers ((off + proghdrSize) % 2 ^ 32) n).map (proghdr (ip.readi off proghdrSize) :: ·)
    else none

/-- What the loop does to the image for one header. -/
def place (ip : Inode) (img : Image) (ph : Proghdr) : Image :=
  if ph.type = elfProgLoad then
    (img.grow (ph.vaddr + ph.memsz) (pteR ||| pteU ||| flags2perm ph.flags ||| pteV)).write ph.vaddr
      (ip.segment (ph.off % 2 ^ 32) (ph.filesz % 2 ^ 32))
  else img

/-- What `exec` has checked when it accepts a header. -/
structure Accepted (ip : Inode) (ph : Proghdr) : Prop where
  filesz : ph.filesz ≤ ph.memsz
  aligned : ph.vaddr % pgSize = 0
  bound : ph.vaddr + ph.memsz ≤ 2 ^ 27
  whole : (ip.segment (ph.off % 2 ^ 32) (ph.filesz % 2 ^ 32)).length = ph.filesz % 2 ^ 32

/-- All headers were read and accepted, and the image of them is in memory. -/
structure Loaded (ip : Inode) (off n : Nat) (img : Image) (s : Phys) (r : Nat) (phs : List Proghdr) :
    Prop where
  headers : ip.headers off n = some phs
  accepted : ∀ ph ∈ phs, ph.type = elfProgLoad → Accepted ip ph
  shows : Shows s r (phs.foldl (place ip) img)

omit [Layout] in
/-- One more header in front. -/
lemma Loaded.cons {ip : Inode} {off : Nat} {img : Image} {phs : List Proghdr}
    (hread : (ip.readi off proghdrSize).length = proghdrSize)
    (hacc : (proghdr (ip.readi off proghdrSize)).type = elfProgLoad →
      Accepted ip (proghdr (ip.readi off proghdrSize)))
    (h : Loaded ip ((off + proghdrSize) % 2 ^ 32) n
      (place ip img (proghdr (ip.readi off proghdrSize))) s r phs) :
    Loaded ip off (n + 1) img s r (proghdr (ip.readi off proghdrSize) :: phs) where
  headers := by rw [Inode.headers, if_pos hread, h.headers, Option.map_some]
  accepted := forall_mem_cons.mpr ⟨hacc, h.accepted⟩
  shows := h.shows

section

variable {sᵢ : Phys} {oᵢ : Nat → Owner} {ip : Inode} {img : Image}

/-- The part of the loop that allocates and loads a segment, in front of the other rounds. -/
lemma segRound_spec (hᵢ : Heap sᵢ R oᵢ) (hR : R t = some r) (hc : Changed R t r 0 sᵢ oᵢ s o)
    (hl : Loadable (fun v => pteAt s.mem r v) (pages img.size)) (hi : Shows s r img) {ph : Proghdr}
    (htype : ph.type = elfProgLoad) (hfilesz : ph.filesz ≤ ph.memsz) (halign : ph.vaddr % pgSize = 0)
    {next : Nat → PhysM (Bool × Nat)} {Q : Bool × Nat → Phys → Prop}
    (hstop : ∀ sz s' o', Changed R t r 0 sᵢ oᵢ s' o' →
      Loadable (fun v => pteAt s'.mem r v) (pages sz) → Q (false, sz) s')
    (hnext : ∀ s' o', Changed R t r 0 sᵢ oᵢ s' o' →
      Loadable (fun v => pteAt s'.mem r v) (pages (place ip img ph).size) →
      Shows s' r (place ip img ph) → Accepted ip ph → Returns (next (place ip img ph).size) s' Q) :
    Returns (do
      let sz1 ← uvmalloc (4096 * r) img.size (ph.vaddr + ph.memsz) (flags2perm ph.flags)
      if sz1 = 0 then pure (false, img.size)
      else do
        let res ← loadseg (4096 * r) ph.vaddr ip (ph.off % 2 ^ 32) (ph.filesz % 2 ^ 32)
        if res < 0 then pure (false, sz1) else next sz1) s Q := by
  refine (uvmalloc_spec hc.heap hR hl.user (small_of_pages hc.heap hR hl.user)
    (flags2perm_lt _)).bind ?_
  rintro sz1 s₁ ⟨o₁, hch, ⟨rfl, hp, hg, hz⟩ | ⟨rfl, hp⟩⟩
  · have hl₁ := Loadable.grow hch hl (flags2perm_lt _) hp hg
    have hc₁ := hc.trans hᵢ hR hch.weaken
    split
    next hzero =>
      -- nothing was added
      refine returns_pure (hstop _ _ o₁ hc₁ ?_)
      have hsz : img.size = 0 := by omega
      rw [hsz]
      rwa [hzero] at hl₁
    next =>
      have hi₁ := hi.grow hc.heap hR (flags2perm_lt _) hch hp hg hz
      have hle := le_pages (max img.size (ph.vaddr + ph.memsz))
      refine (loadseg_spec hc₁.heap hR hl₁ ip _ halign (by omega)).bind ?_
      rintro res s₂ ⟨hpoke, hres⟩
      have hl₂ := hl₁.congr fun v hv => hpoke.ptes hc₁.heap hR hv
      have hc₂ := hc₁.trans hᵢ hR (hpoke.changed hc₁.heap hR)
      split
      next => exact returns_pure (hstop _ _ o₁ hc₂ hl₂)
      next hok =>
        obtain ⟨hwhole, hcopied⟩ := hres (by omega)
        have hbound := le_of_pages hc₁.heap hR hl₁.user
        have hplace : place ip img ph = (img.grow (ph.vaddr + ph.memsz)
            (pteR ||| pteU ||| flags2perm ph.flags ||| pteV)).write ph.vaddr
              (ip.segment (ph.off % 2 ^ 32) (ph.filesz % 2 ^ 32)) := if_pos htype
        have hi₂ : Shows s₂ r (place ip img ph) := by
          rw [hplace]
          refine hi₁.write hc₁.heap hR hl₁.sealed hcopied hpoke fun i hlt => ?_
          exact (hi₁.visible_iff hl₁.sealed).mp (hl₁.visible (by omega))
        have hsize : (place ip img ph).size = max img.size (ph.vaddr + ph.memsz) := by
          rw [hplace]
          rfl
        rw [← hsize] at hl₂ ⊢
        exact hnext s₂ o₁ hc₂ hl₂ hi₂ ⟨hfilesz, halign, by omega, hwhole⟩
  · rw [if_pos rfl]
    refine returns_pure (hstop _ _ o₁ (hc.trans hᵢ hR hch.weaken)
      ⟨hp, fun v hv => ?_, hl.sealed.changed hch⟩)
    have he := hch.ptes (hp.userVpn hv).1 (.inl hv)
    simp only [he]
    exact hl.access v hv

/-- The loop of `exec` over the program headers. -/
lemma segRounds_spec (hᵢ : Heap sᵢ R oᵢ) (hR : R t = some r) (ip : Inode) :
    ∀ (n : Nat) {s : Phys} {o : Nat → Owner} {off : Nat} {img : Image}, Changed R t r 0 sᵢ oᵢ s o →
      Loadable (fun v => pteAt s.mem r v) (pages img.size) → Shows s r img →
      Returns (segRounds (4096 * r) ip off img.size n) s fun res s' => ∃ o',
        Changed R t r 0 sᵢ oᵢ s' o' ∧ Loadable (fun v => pteAt s'.mem r v) (pages res.2) ∧
        (res.1 = true → ∃ phs, Loaded ip off n img s' r phs ∧
          res.2 = (phs.foldl (place ip) img).size) := by
  intro n
  induction n with
  | zero =>
    intro s o off img hc hl hi
    exact returns_pure ⟨o, hc, hl, fun _ => ⟨[], ⟨rfl, fun _ hm => absurd hm not_mem_nil, hi⟩, rfl⟩⟩
  | succ n ih =>
    intro s o off img hc hl hi
    have hstop : ∀ sz s' o', Changed R t r 0 sᵢ oᵢ s' o' →
        Loadable (fun v => pteAt s'.mem r v) (pages sz) → ∃ o', Changed R t r 0 sᵢ oᵢ s' o' ∧
        Loadable (fun v => pteAt s'.mem r v) (pages sz) ∧
        (false = true → ∃ phs, Loaded ip off (n + 1) img s' r phs ∧
          sz = (phs.foldl (place ip) img).size) :=
      fun _ _ o' hc' hl' => ⟨o', hc', hl', fun hf => absurd hf Bool.false_ne_true⟩
    have hmemsz : (proghdr (ip.readi off proghdrSize)).memsz < 2 ^ 64 := getLE_lt ..
    rw [segRounds]
    split
    next => exact returns_pure (hstop _ s o hc hl)
    next hread =>
    rw [not_ne_iff] at hread
    -- the rounds after this one
    have hrest : ∀ {s' : Phys} {o' : Nat → Owner}, Changed R t r 0 sᵢ oᵢ s' o' →
        Loadable (fun v => pteAt s'.mem r v)
          (pages (place ip img (proghdr (ip.readi off proghdrSize))).size) →
        Shows s' r (place ip img (proghdr (ip.readi off proghdrSize))) →
        ((proghdr (ip.readi off proghdrSize)).type = elfProgLoad →
          Accepted ip (proghdr (ip.readi off proghdrSize))) →
        Returns (segRounds (4096 * r) ip ((off + proghdrSize) % 2 ^ 32)
          (place ip img (proghdr (ip.readi off proghdrSize))).size n) s' fun res s' => ∃ o',
          Changed R t r 0 sᵢ oᵢ s' o' ∧ Loadable (fun v => pteAt s'.mem r v) (pages res.2) ∧
          (res.1 = true → ∃ phs, Loaded ip off (n + 1) img s' r phs ∧
            res.2 = (phs.foldl (place ip) img).size) := by
      intro s' o' hc' hl' hi' hacc
      refine (ih hc' hl' hi').mono ?_
      rintro res s'' ⟨o'', hc'', hl'', hres⟩
      refine ⟨o'', hc'', hl'', fun htrue => ?_⟩
      obtain ⟨phs, hloaded, hsize⟩ := hres htrue
      exact ⟨_, hloaded.cons hread hacc, hsize⟩
    generalize proghdr (ip.readi off proghdrSize) = ph at hmemsz hrest
    split
    next htype =>
      have hplace : place ip img ph = img := if_neg htype
      rw [hplace] at hrest
      exact hrest hc hl hi fun ht => absurd ht htype
    next htype =>
    split
    next => exact returns_pure (hstop _ s o hc hl)
    next hfilesz =>
    split
    next => exact returns_pure (hstop _ s o hc hl)
    next hwrap =>
    split
    next => exact returns_pure (hstop _ s o hc hl)
    next halign =>
      have hsum : (ph.vaddr + ph.memsz) % 2 ^ 64 = ph.vaddr + ph.memsz := by omega
      rw [hsum]
      exact segRound_spec hᵢ hR hc hl hi (not_ne_iff.mp htype) (by omega) (not_ne_iff.mp halign)
        hstop fun s' o' hc' hl' hi' hacc => hrest hc' hl' hi' fun _ => hacc

end

/-! ## The stack -/

/-- The string at an address, with its NUL. -/
def strAt (m : Bytes) (a : Nat) : List UInt8 :=
  (upToNul ((range pgSize).map fun j => m (a + j))).1

/-- `n` rounded up to a multiple of 16. -/
def round16 (n : Nat) : Nat := (n + 15) / 16 * 16

/-- The bytes of the stack that the strings take. -/
def used (strs : List (List UInt8)) : Nat := (strs.map fun str => round16 str.length).sum

/-- Where the strings start when they are pushed from `sp` on. -/
def tops (sp : Nat) : List (List UInt8) → List Nat
  | [] => []
  | str :: strs => (sp - round16 str.length) :: tops (sp - round16 str.length) strs

/-- The strings are pushed from `sp` on. -/
def pushStrs (img : Image) (sp : Nat) : List (List UInt8) → Image
  | [] => img
  | str :: strs => pushStrs (img.write (sp - round16 str.length) str) (sp - round16 str.length) strs

section

omit [Layout]

lemma upToNul_le (bs : List UInt8) : (upToNul bs).1.length ≤ bs.length := by
  induction bs with
  | nil => exact Nat.le_refl 0
  | cons b bs ih =>
    rw [upToNul]
    split
    next => simp
    next =>
      rw [length_cons, length_cons]
      exact Nat.succ_le_succ ih

lemma strAt_le (m : Bytes) (a : Nat) : (strAt m a).length ≤ 4096 := by
  refine (upToNul_le _).trans ?_
  rw [length_map, length_range]
  exact Nat.le_refl 4096

lemma returns_loadStr {β : Type} {a : Nat} {g : List UInt8 → PhysM β} {Q : β → Phys → Prop}
    (h : Returns (g (strAt s.mem a)) s Q) : Returns (loadStr a >>= g) s Q :=
  returns_bind_of_eq (a := strAt s.mem a) rfl h

lemma pushSp_eq {sp n : Nat} (hsp : sp % 16 = 0) (hlt : sp < 2 ^ 64) (hn : n ≤ sp) :
    pushSp sp n = sp - round16 n := by
  unfold pushSp round16
  dsimp only
  omega

lemma le_round16 (n : Nat) : n ≤ round16 n := by
  unfold round16
  omega

lemma round16_mod (n : Nat) : round16 n % 16 = 0 := by
  unfold round16
  omega

lemma used_cons (str : List UInt8) (strs : List (List UInt8)) :
    used (str :: strs) = round16 str.length + used strs := by
  rw [used, map_cons, sum_cons]
  rfl

lemma pushStrs_size (img : Image) (sp : Nat) (strs : List (List UInt8)) :
    (pushStrs img sp strs).size = img.size := by
  induction strs generalizing img sp with
  | nil => rfl
  | cons str strs ih => exact ih ..

lemma pushStrs_flags (img : Image) (sp : Nat) (strs : List (List UInt8)) :
    (pushStrs img sp strs).flags = img.flags := by
  induction strs generalizing img sp with
  | nil => rfl
  | cons str strs ih => exact ih ..

lemma length_tops (sp : Nat) (strs : List (List UInt8)) : (tops sp strs).length = strs.length := by
  induction strs generalizing sp with
  | nil => rfl
  | cons str strs ih => rw [tops, length_cons, ih, length_cons]

end

section

omit [Layout]

lemma length_words (ws : List Nat) : (ws.flatMap (leBytes 8)).length = 8 * ws.length := by
  induction ws with
  | nil => rfl
  | cons w ws ih =>
    rw [flatMap_cons, length_append, ih, length_cons, leBytes, length_map,
      length_range]
    omega

lemma used_mod (strs : List (List UInt8)) : used strs % 16 = 0 := by
  induction strs with
  | nil => rfl
  | cons str strs ih =>
    have := round16_mod str.length
    rw [used_cons]
    omega

/-- The guard page and the stack page on top of an image. -/
def withStack (img : Image) : Image :=
  ({ img with size := 4096 * pages img.size }.grow (4096 * (pages img.size + 2))
    (pteR ||| pteU ||| pteW ||| pteV)).guard (pages img.size)

lemma withStack_size (img : Image) : (withStack img).size = 4096 * (pages img.size + 2) := by
  show max (4096 * pages img.size) (4096 * (pages img.size + 2)) = _
  omega

/-- User code may use the stack page. -/
lemma withStack_user (img : Image) {va : Nat} (hlo : 4096 * (pages img.size + 1) ≤ va)
    (hhi : va < 4096 * (pages img.size + 2)) : (withStack img).User va := by
  have hv : va / 4096 = pages img.size + 1 := by omega
  refine ⟨?_, ?_⟩
  · rw [withStack_size, pages_mul]
    exact hhi
  · rw [hv]
    have hflags : (withStack img).flags (pages img.size + 1) = pteR ||| pteU ||| pteW ||| pteV := by
      rw [withStack, Image.guard]
      dsimp only
      rw [Function.update_of_ne (by omega), Image.grow]
      dsimp only
      rw [pages_mul, if_neg (by omega)]
    rw [hflags]
    decide

end

/-- `str` was at the address `a` at some time before which only user pages of `t` changed. -/
def Read (R : Tag → Option Nat) (t : Tag) (s : Phys) (o : Nat → Owner) (a : Nat) (str : List UInt8) :
    Prop :=
  ∃ s', Poked R t s o s' ∧ str = strAt s'.mem a

lemma read_now (h : Heap s R o) (argv : List Nat) :
    List.Forall₂ (Read R t s o) argv (argv.map (strAt s.mem)) := by
  induction argv with
  | nil => exact .nil
  | cons a argv ih => exact .cons ⟨s, Poked.refl h, rfl⟩ ih

lemma read_later {argv : List Nat} {strs : List (List UInt8)} (hp : Poked R t s o s')
    (h : List.Forall₂ (Read R t s' o) argv strs) : List.Forall₂ (Read R t s o) argv strs :=
  h.imp fun _ _ ⟨s'', hp', he⟩ => ⟨s'', hp.trans hp', he⟩

/-- An image with a stack page at `base`. -/
structure Stacked (s : Phys) (r : Nat) (img : Image) (base : Nat) : Prop where
  shows : Shows s r img
  sealed : Sealed fun v => pteAt s.mem r v
  stack : ∀ {va}, base ≤ va → va < base + 4096 → img.User va
  low : 4096 ≤ base
  high : base < 2 ^ 40
  aligned : base % 16 = 0

/-- `copyout` to the stack page. -/
lemma Stacked.copyout {img : Image} {base va : Nat} {bs : List UInt8} (hst : Stacked s r img base)
    (h : Heap s R o) (hR : R t = some r) (hlo : base ≤ va) (hhi : va + bs.length ≤ base + 4096) :
    Returns (Mem.copyout (4096 * r) va bs) s fun res s' => res = 0 ∧ Poked R t s o s' ∧
      Stacked s' r (img.write va bs) base := by
  refine ((copyout_spec h hR hst.sealed va bs).and (copyout_exact h hR hst.sealed va bs)).mono ?_
  rintro res s' ⟨hp, hcopied, hres⟩
  have hall : ∀ i, i < bs.length → img.User (va + i) := fun i hi => hst.stack (by omega) (by omega)
  refine ⟨hres.mpr fun i hi => (hst.shows.visible_iff hst.sealed).mpr (hall i hi), hp,
    hst.shows.write h hR hst.sealed hcopied hp hall, ?_, hst.stack, hst.low, hst.high, hst.aligned⟩
  exact hst.sealed.congr fun v hv => hp.ptes h hR hv

/-- The loop that pushes the argument strings. -/
lemma argRounds_spec (hR : R t = some r) {base : Nat} :
    ∀ (argv : List Nat) {s : Phys} {img : Image} (sp : Nat) (ustack : List Nat), Heap s R o →
      Stacked s r img base → base ≤ sp → sp ≤ base + 4096 → sp % 16 = 0 → ustack.length ≤ maxArg →
      Returns (argRounds (4096 * r) base argv sp ustack) s fun res s' => Poked R t s o s' ∧
        ∃ strs, List.Forall₂ (Read R t s o) argv strs ∧
          (res = none ∧ ¬ (ustack.length + argv.length ≤ maxArg ∧ base + used strs ≤ sp) ∨
            res = some (sp - used strs, ustack ++ tops sp strs) ∧
              (ustack.length + argv.length ≤ maxArg ∧ base + used strs ≤ sp) ∧
              Stacked s' r (pushStrs img sp strs) base) := by
  intro argv
  induction argv with
  | nil =>
    intro s img sp ustack h hst hlo _ _ hlen
    refine returns_pure ⟨Poked.refl h, [], .nil, .inr ⟨?_, ⟨hlen, hlo⟩, hst⟩⟩
    rw [tops, append_nil]
    rfl
  | cons arg argv ih =>
    intro s img sp ustack h hst hlo hhi hmod hlen
    have hlow := hst.low
    have hhigh := hst.high
    have hstr := strAt_le s.mem arg
    have hround := le_round16 (strAt s.mem arg).length
    have hround16 := round16_mod (strAt s.mem arg).length
    rw [argRounds]
    split
    next hmany =>
      refine returns_pure ⟨Poked.refl h, _, read_now h _, .inl ⟨rfl, fun hfit => ?_⟩⟩
      have := hfit.1
      rw [length_cons] at this
      omega
    next hfew =>
      apply returns_loadStr
      dsimp only
      rw [pushSp_eq hmod (by omega) (by omega)]
      split
      next hout =>
        refine returns_pure ⟨Poked.refl h, _, read_now h _, .inl ⟨rfl, fun hfit => ?_⟩⟩
        have := hfit.2
        rw [map_cons, used_cons] at this
        omega
      next hin =>
        refine (hst.copyout h hR (by omega) (by omega)).bind ?_
        rintro res s₁ ⟨rfl, hp, hst₁⟩
        rw [if_neg (by decide)]
        refine (ih _ _ hp.heap hst₁ (by omega) (by omega) (by omega)
          (by rw [length_append, length_singleton]; omega)).mono ?_
        rintro res s' ⟨hp', strs, hread, hres⟩
        refine ⟨hp.trans hp', _, .cons ⟨s, Poked.refl h, rfl⟩ (read_later hp hread), ?_⟩
        have hfit : (ustack.length + (arg :: argv).length ≤ maxArg ∧
            base + used (strAt s.mem arg :: strs) ≤ sp) ↔
            (ustack ++ [sp - round16 (strAt s.mem arg).length]).length + argv.length ≤ maxArg ∧
              base + used strs ≤ sp - round16 (strAt s.mem arg).length := by
          rw [used_cons, length_cons, length_append, length_singleton]
          omega
        rw [hfit]
        refine hres.imp id fun hok => ⟨?_, hok.2⟩
        rw [hok.1, used_cons, tops, append_assoc, Nat.sub_sub]
        rfl

/-- The strings and the array of pointers to them fit on the stack page. -/
def Fits (strs : List (List UInt8)) : Prop := used strs + round16 (8 * (strs.length + 1)) ≤ 4096

/-- The stack pointer that the new program gets. -/
def argTop (sz : Nat) (strs : List (List UInt8)) : Nat :=
  sz - used strs - round16 (8 * (strs.length + 1))

/-- The image with its arguments. -/
def argImage (img : Image) (sz : Nat) (strs : List (List UInt8)) : Image :=
  (pushStrs img sz strs).write (argTop sz strs) ((tops sz strs ++ [0]).flatMap (leBytes 8))

/-- The arguments and the array. -/
lemma pushArgs_spec (h : Heap s R o) (hR : R t = some r) {img : Image} {base : Nat}
    (hst : Stacked s r img base) (argv : List Nat) :
    Returns (pushArgs (4096 * r) (base + 4096) argv) s fun res s' => Poked R t s o s' ∧
      ∃ strs, List.Forall₂ (Read R t s o) argv strs ∧
        (res = none ∧ ¬ (argv.length ≤ maxArg ∧ Fits strs) ∨
          res = some (argTop (base + 4096) strs) ∧ (argv.length ≤ maxArg ∧ Fits strs) ∧
            Stacked s' r (argImage img (base + 4096) strs) base) := by
  have hlow := hst.low
  have hhigh := hst.high
  have hbase : base + 4096 - pgSize = base := by
    unfold pgSize
    omega
  have haligned := hst.aligned
  unfold pushArgs
  rw [hbase]
  refine (argRounds_spec hR argv (base + 4096) [] h hst (by omega) (by omega) (by omega)
    (Nat.zero_le _)).bind ?_
  rintro res s₁ ⟨hp, strs, hread, ⟨rfl, hbad⟩ | ⟨rfl, ⟨hfew, hfit⟩, hst₁⟩⟩
  · refine returns_pure ⟨hp, strs, hread, .inl ⟨rfl, fun hok => hbad ⟨?_, ?_⟩⟩⟩
    · rw [length_nil]
      omega
    · have := hok.2
      unfold Fits at this
      omega
  · rw [length_nil, Nat.zero_add] at hfew
    have hlen : strs.length = argv.length := hread.length_eq.symm
    have hused := used_mod strs
    have hwords : (([] ++ tops (base + 4096) strs ++ [0]).flatMap (leBytes 8)).length =
        8 * (strs.length + 1) := by
      rw [length_words, length_append, nil_append, length_tops, length_singleton]
    have hround := le_round16 (8 * (strs.length + 1))
    unfold maxArg at hfew
    dsimp only
    rw [hwords, pushSp_eq (by omega) (by omega) (by omega)]
    split
    next hout =>
      refine returns_pure ⟨hp, strs, hread, .inl ⟨rfl, fun hok => ?_⟩⟩
      have := hok.2
      unfold Fits at this
      omega
    next hin =>
      refine (hst₁.copyout hp.heap hR (by omega) (by omega)).bind ?_
      rintro res s₂ ⟨rfl, hp₂, hst₂⟩
      rw [if_neg (by decide)]
      refine returns_pure ⟨hp.trans hp₂, strs, hread, .inr ⟨rfl, ⟨hfew, ?_⟩, hst₂⟩⟩
      unfold Fits
      omega

/-- Before the arguments are pushed, `makeStack` does the same for all of them. -/
lemma makeStack_run {sᵢ : Phys} {oᵢ : Nat → Owner} (hᵢ : Heap sᵢ R oᵢ) (hR : R t = some r)
    {img : Image} (hc : Changed R t r 0 sᵢ oᵢ s o)
    (hl : Loadable (fun v => pteAt s.mem r v) (pages img.size)) (hi : Shows s r img) :
    ∃ s' o', Changed R t r 0 sᵢ oᵢ s' o' ∧
      ((∀ argv, makeStack (4096 * r) img.size argv s = .ok ((4096 * pages img.size, none), s')) ∧
          UserPages (fun v => pteAt s'.mem r v) (pages img.size) ∨
        (∀ argv, makeStack (4096 * r) img.size argv s = (do
            let sp ← pushArgs (4096 * r) (withStack img).size argv
            pure ((withStack img).size, sp)) s') ∧
          Stacked s' r (withStack img) (4096 * (pages img.size + 1))) := by
  have harea := hl.user.le_area hc.heap hR
  have hsmall : 4096 * pages img.size < 2 ^ 40 := by omega
  have hnew : 4096 * pages img.size + 2 * pgSize = 4096 * (pages img.size + 2) := by
    unfold pgSize
    omega
  have hi₀ := hi.roundUp
  obtain ⟨sz1, s₁, hrun, o₁, hch, hres⟩ :
      Returns (uvmalloc (4096 * r) (4096 * pages img.size) (4096 * (pages img.size + 2)) pteW) s _ :=
    uvmalloc_spec hc.heap hR hi₀.user hsmall (by decide)
  have hunfold : ∀ argv, makeStack (4096 * r) img.size argv s = (do
      if sz1 = 0 then pure (4096 * pages img.size, none)
      else do
        uvmclear (4096 * r) (sz1 - 2 * pgSize)
        let sp ← pushArgs (4096 * r) sz1 argv
        pure (sz1, sp) : PhysM (Nat × Option Nat)) s₁ := by
    intro argv
    unfold makeStack
    simp only [pgRoundUp_pages (small_of_pages hc.heap hR hl.user), hnew]
    exact bind_of_ok hrun
  rcases hres with ⟨rfl, hp, hg, hz⟩ | ⟨rfl, hp⟩
  · have hi₁ := hi₀.grow hc.heap hR (by decide) hch hp hg hz
    have hmax : max (4096 * pages img.size) (4096 * (pages img.size + 2)) =
        4096 * (pages img.size + 2) := by omega
    have hguard : 4096 * (pages img.size + 2) - 2 * pgSize = 4096 * pages img.size := by
      unfold pgSize
      omega
    rw [hmax] at hunfold hp
    obtain ⟨_, s₂, hclear, hch₂, hp₂, hptes, hmem⟩ := uvmclear_spec (v := pages img.size) hch.heap hR
      hp (by rw [pages_mul]; omega)
    have hc₁ := hc.trans hᵢ hR hch.weaken
    have hsize := withStack_size img
    have hst : Shows s₂ r (withStack img) := by
      refine hi₁.guard hch.heap hR hptes hmem ?_ ?_
      · show pages img.size < pages (withStack img).size
        rw [hsize, pages_mul]
        omega
      · show UserPages _ (pages (withStack img).size)
        rw [hsize]
        exact hp₂
    refine ⟨s₂, o₁, hc₁.trans hᵢ hR hch₂.weaken, .inr ⟨fun argv => ?_, hst,
      (hl.sealed.changed hch).changed hch₂, fun hlo hhi => withStack_user img hlo (by omega), by omega,
      by omega, by omega⟩⟩
    rw [hunfold, if_neg (by omega), hguard, hsize]
    exact bind_of_ok hclear
  · refine ⟨s₁, o₁, hc.trans hᵢ hR hch.weaken, .inl ⟨fun argv => ?_, ?_⟩⟩
    · rw [hunfold]
      rfl
    · rw [pages_mul] at hp
      exact hp

end Xv6.Process
