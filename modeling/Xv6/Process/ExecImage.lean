import Xv6.Process.Program

/-!
# The program that `exec` starts

If the segments of a file come in ascending order, each on pages of its own, then user code
finds every segment at its address with the permissions of its flags, zeros elsewhere, and
no access to the page below the stack.
-/

namespace Xv6.Process

open Lib List Mem

variable [Layout] {K K' : Kernel} {o : Nat → Owner} {p r tf sp entry : Nat} {img : Image}

/-! ## The memory of a process -/

/-- The byte that user code of process `p` finds at an address. -/
def userByte (K : Kernel) (p va : Nat) : Option UInt8 :=
  match mapping K.phys (K.proc p).pagetable va with
  | some pte => if pte &&& pteU = 0 then none else some (K.phys.mem (pte2pa pte + va % pgSize))
  | none => none

lemma Committed.heap (h : Committed p K o K' r tf img sp entry) :
    ∃ R t o', Heap K'.phys R o' ∧ R t = some r := by
  obtain ⟨o', hrep⟩ := h.replaced
  exact ⟨tables K', .proc p, o', hrep.moved.mem.heap, tables_proc h.pagetable hrep.pagetable⟩

/-- The entry behind an address that user code can use. -/
lemma Committed.mapping (h : Committed p K o K' r tf img sp entry) {va : Nat} (hu : img.User va) :
    ∃ pte, Process.mapping K'.phys (K'.proc p).pagetable va = some pte ∧
      pte % 1024 = img.flags (va / 4096) ∧ pte &&& pteU ≠ 0 ∧
      K'.phys.mem (pte2pa pte + va % pgSize) = img.byte va := by
  obtain ⟨R, t, o', hheap, hR⟩ := h.heap
  have hvis := (h.shows.visible_iff h.sealed).mpr hu
  obtain ⟨pte, hmap, huser⟩ := (visible_iff hheap hR).mp hvis
  obtain ⟨-, hpte, -⟩ := mapping_some hheap hR hmap
  have hpage := div_lt_of_lt hu.1
  have hown := h.shows.owner hheap hR hpage
  have hsmall := inArea_lt (hheap.inArea (q := pteAt K'.phys.mem r (va / 4096) / 1024)
    (by rw [hown]; rintro ⟨⟩))
  have hpa : pte2pa pte = 4096 * (pteAt K'.phys.mem r (va / 4096) / 1024) := by
    rw [pte2pa_eq, hpte]
    rw [hpte] at hsmall
    omega
  refine ⟨pte, by rw [h.pagetable]; exact hmap, by rw [← hpte]; exact h.shows.flags hpage, huser, ?_⟩
  rw [← h.shows.byte hu.1, hpa]
  rfl

lemma Committed.userByte_of_user (h : Committed p K o K' r tf img sp entry) {va : Nat}
    (hu : img.User va) : userByte K' p va = some (img.byte va) := by
  obtain ⟨pte, hmap, -, huser, hbyte⟩ := h.mapping hu
  unfold userByte
  rw [hmap]
  dsimp only
  rw [if_neg huser, hbyte]

lemma Committed.user_of_userByte (h : Committed p K o K' r tf img sp entry) {va : Nat} {b : UInt8}
    (hb : userByte K' p va = some b) : img.User va ∧ b = img.byte va := by
  obtain ⟨R, t, o', hheap, hR⟩ := h.heap
  have hu : img.User va := by
    refine (h.shows.visible_iff h.sealed).mp ((visible_iff hheap hR).mpr ?_)
    unfold userByte at hb
    rw [h.pagetable] at hb
    split at hb
    next pte hmap =>
      split at hb
      next => cases hb
      next huser => exact ⟨pte, hmap, huser⟩
    next => cases hb
  rw [h.userByte_of_user hu] at hb
  exact ⟨hu, (Option.some.inj hb).symm⟩

/-! ## Segments in order -/

/-- The segments come in order, the first from size `sz` on, each on pages after those of the
one before. -/
def Ascending : Nat → List Proghdr → Prop
  | _, [] => True
  | sz, ph :: phs => 4096 * pages sz ≤ ph.vaddr ∧ Ascending (ph.vaddr + ph.memsz) phs

/-- The image holds the segments, and zeros elsewhere. -/
structure Holds (d : Contents) (phs : List Proghdr) (img : Image) : Prop where
  size : ∀ ph ∈ phs, ph.vaddr + ph.memsz ≤ img.size
  file : ∀ ph ∈ phs, ∀ i, i < ph.filesz → d.bytes[ph.off % 2 ^ 32 + i]? = some (img.byte (ph.vaddr + i))
  bss : ∀ ph ∈ phs, ∀ i, ph.filesz ≤ i → i < ph.memsz → img.byte (ph.vaddr + i) = 0
  zero : ∀ va, (∀ ph ∈ phs, ¬ (ph.vaddr ≤ va ∧ va < ph.vaddr + ph.filesz)) → img.byte va = 0
  flags : ∀ ph ∈ phs, ∀ v, ph.vaddr ≤ 4096 * v → 4096 * v < ph.vaddr + ph.memsz →
    img.flags v = pteR ||| pteU ||| flags2perm ph.flags ||| pteV

section

omit [Layout]

variable {d : Contents} {phs : List Proghdr}

lemma Holds.empty (d : Contents) : Holds d [] .empty :=
  ⟨by simp, by simp, by simp, fun _ _ => rfl, by simp⟩

lemma Holds.byte_beyond (h : Holds d phs img) {va : Nat} (hva : img.size ≤ va)
    (hfilesz : ∀ ph ∈ phs, ph.filesz ≤ ph.memsz) : img.byte va = 0 := by
  refine h.zero va fun ph hph hin => ?_
  have hsize := h.size ph hph
  have hle := hfilesz ph hph
  omega

/-- One more segment, on pages after the image. -/
lemma Holds.add (h : Holds d phs img) (hfilesz : ∀ ph ∈ phs, ph.filesz ≤ ph.memsz) {ph : Proghdr}
    (htype : ph.type = elfProgLoad) (hafter : 4096 * pages img.size ≤ ph.vaddr)
    (hseg : d.inode.segment (ph.off % 2 ^ 32) (ph.filesz % 2 ^ 32) =
      (d.bytes.drop (ph.off % 2 ^ 32)).take ph.filesz)
    (hin : 0 < ph.filesz → ph.off % 2 ^ 32 + ph.filesz ≤ d.bytes.length) :
    Holds d (phs ++ [ph]) (place d.inode img ph) ∧
      (place d.inode img ph).size = ph.vaddr + ph.memsz := by
  have hsz := le_pages img.size
  have hplace : place d.inode img ph = (img.grow (ph.vaddr + ph.memsz)
      (pteR ||| pteU ||| flags2perm ph.flags ||| pteV)).write ph.vaddr
        ((d.bytes.drop (ph.off % 2 ^ 32)).take ph.filesz) := by
    rw [place, if_pos htype, hseg]
  have hsize : (place d.inode img ph).size = ph.vaddr + ph.memsz := by
    rw [hplace]
    exact Nat.max_eq_right (by omega)
  have hlen : ((d.bytes.drop (ph.off % 2 ^ 32)).take ph.filesz).length = ph.filesz := by
    rw [length_take, length_drop]
    omega
  -- outside the new segment nothing changes
  have hold : ∀ va, ¬ (ph.vaddr ≤ va ∧ va < ph.vaddr + ph.filesz) →
      (place d.inode img ph).byte va = img.byte va := by
    intro va hout
    rw [hplace]
    show blit _ ph.vaddr _ va = _
    rw [blit, hlen, if_neg hout]
    show (if va < 4096 * pages img.size then img.byte va else 0) = _
    split
    next => rfl
    next hge => exact (h.byte_beyond (by omega) hfilesz).symm
  have hnew : ∀ i, i < ph.filesz →
      d.bytes[ph.off % 2 ^ 32 + i]? = some ((place d.inode img ph).byte (ph.vaddr + i)) := by
    intro i hi
    rw [hplace]
    show _ = some (blit _ ph.vaddr _ (ph.vaddr + i))
    rw [blit, hlen, if_pos ⟨by omega, by omega⟩, Nat.add_sub_cancel_left]
    have hbound : ph.off % 2 ^ 32 + i < d.bytes.length := by
      have := hin (by omega)
      omega
    generalize ph.off % 2 ^ 32 = off at hbound ⊢
    simp [getD, hi, hbound]
  refine ⟨⟨?_, ?_, ?_, ?_, ?_⟩, hsize⟩
  · intro ph' hph'
    rw [hsize]
    rcases mem_append.mp hph' with hmem | hmem
    · have := h.size ph' hmem
      omega
    · rw [mem_singleton.mp hmem]
  · intro ph' hph' i hi
    rcases mem_append.mp hph' with hmem | hmem
    · have hle := h.size ph' hmem
      have hf := hfilesz ph' hmem
      rw [hold _ (by omega)]
      exact h.file ph' hmem i hi
    · rw [mem_singleton.mp hmem] at hi ⊢
      exact hnew i hi
  · intro ph' hph' i hlo hhi
    rcases mem_append.mp hph' with hmem | hmem
    · have hle := h.size ph' hmem
      rw [hold _ (by omega)]
      exact h.bss ph' hmem i hlo hhi
    · rw [mem_singleton.mp hmem] at hlo ⊢
      rw [hold _ (by omega)]
      exact h.byte_beyond (by omega) hfilesz
  · intro va hout
    rw [hold va (hout ph (mem_append_right _ (mem_singleton_self ph)))]
    exact h.zero va fun ph' hph' => hout ph' (mem_append_left _ hph')
  · intro ph' hph' v hlo hhi
    rw [hplace]
    show (if v < pages img.size then img.flags v else _) = _
    rcases mem_append.mp hph' with hmem | hmem
    · have hle := h.size ph' hmem
      rw [if_pos (by omega)]
      exact h.flags ph' hmem v hlo hhi
    · rw [mem_singleton.mp hmem] at hlo ⊢
      rw [if_neg (by omega)]

/-- All segments of a file. -/
lemma Holds.all (hacc : d.Checked) :
    ∀ (rest : List Proghdr) {phs : List Proghdr} {img : Image}, Holds d phs img →
      (∀ ph ∈ phs, ph.filesz ≤ ph.memsz) → (∀ ph ∈ rest, ph ∈ d.segments) → Ascending img.size rest →
      Holds d (phs ++ rest) (rest.foldl (place d.inode) img) := by
  intro rest
  induction rest with
  | nil =>
    intro phs img h _ _ _
    rw [append_nil]
    exact h
  | cons ph rest ih =>
    intro phs img h hfilesz hmem hasc
    have hph := hmem ph mem_cons_self
    have htype : ph.type = elfProgLoad := of_decide_eq_true (mem_filter.mp hph).2
    obtain ⟨hplaced, hsize⟩ := h.add hfilesz htype hasc.1 (hacc.segment ph hph) (hacc.inside ph hph)
    have hall := ih hplaced ?_ (fun ph' hph' => hmem ph' (mem_cons_of_mem ph hph'))
      (by rw [hsize]; exact hasc.2)
    · rwa [append_assoc] at hall
    · intro ph' hph'
      rcases mem_append.mp hph' with hin | hin
      · exact hfilesz ph' hin
      · rw [mem_singleton.mp hin]
        exact (hacc.accepted ph hph).filesz

/-- Headers that are not loaded make no difference. -/
lemma foldl_place_filter (ip : Inode) (img : Image) (phs : List Proghdr) :
    phs.foldl (place ip) img = (phs.filter fun ph => ph.type = elfProgLoad).foldl (place ip) img := by
  induction phs generalizing img with
  | nil => rfl
  | cons ph phs ih =>
    by_cases htype : ph.type = elfProgLoad
    · rw [filter_cons_of_pos (by simpa using htype), foldl_cons, foldl_cons]
      exact ih _
    · rw [filter_cons_of_neg (by simpa using htype), foldl_cons]
      have hskip : place ip img ph = img := if_neg htype
      rw [hskip]
      exact ih _

/-! ## The stack -/

lemma withStack_byte (img : Image) (va : Nat) :
    (withStack img).byte va = if va < 4096 * pages img.size then img.byte va else 0 := by
  show (if va < 4096 * pages (4096 * pages img.size) then _ else _) = _
  rw [pages_mul]

lemma withStack_flags_of_lt (img : Image) {v : Nat} (hv : v < pages img.size) :
    (withStack img).flags v = img.flags v := by
  rw [withStack, Image.guard]
  dsimp only
  rw [Function.update_of_ne (by omega), Image.grow]
  dsimp only
  rw [pages_mul, if_pos hv]

/-- User code cannot use the page below the stack page. -/
lemma not_user_guard (img : Image) {va : Nat} (hlo : 4096 * pages img.size ≤ va)
    (hhi : va < 4096 * (pages img.size + 1)) : ¬ (withStack img).User va := by
  rintro ⟨-, huser⟩
  have hv : va / 4096 = pages img.size := by omega
  have hflags : (withStack img).flags (pages img.size) =
      (pteR ||| pteU ||| pteW ||| pteV) &&& (1023 - pteU) := by
    rw [withStack, Image.guard]
    dsimp only
    rw [Function.update_self, Image.grow]
    dsimp only
    rw [pages_mul, if_neg (by omega)]
  rw [hv, hflags] at huser
  exact huser (by decide)

lemma pushStrs_byte_of_lt (img : Image) {va : Nat} (strs : List (List UInt8)) {sp : Nat}
    (hva : va < sp - used strs) : (pushStrs img sp strs).byte va = img.byte va := by
  induction strs generalizing img sp with
  | nil => rfl
  | cons str strs ih =>
    rw [used_cons] at hva
    rw [pushStrs, ih _ (by omega)]
    exact if_neg (by omega)

/-- The arguments are above the stack pointer. -/
lemma argImage_byte_of_lt (img : Image) {va sz : Nat} {strs : List (List UInt8)}
    (hva : va < argTop sz strs) : (argImage img sz strs).byte va = img.byte va := by
  have hlt := hva
  unfold argTop at hlt
  rw [← pushStrs_byte_of_lt img strs (by omega : va < sz - used strs)]
  exact if_neg (by omega)

lemma argImage_user {img : Image} {va sz : Nat} {strs : List (List UInt8)} :
    (argImage img sz strs).User va ↔ img.User va := by
  unfold Image.User argImage
  rw [show (Image.write _ _ _).size = _ from pushStrs_size img sz strs,
    show (Image.write _ _ _).flags = _ from pushStrs_flags img sz strs]

end

/-! ## The program in memory -/

section

omit [Layout]

/-- The flags of a segment, bit by bit. -/
lemma segFlags {pte flags : Nat} (h : pte % 1024 = pteR ||| pteU ||| flags2perm flags ||| pteV) :
    pte &&& pteU ≠ 0 ∧ pte &&& pteR ≠ 0 ∧ (pte &&& pteW ≠ 0 ↔ flags &&& 2 ≠ 0) ∧
      (pte &&& pteX ≠ 0 ↔ flags &&& 1 ≠ 0) := by
  rw [← flags_and pte (by decide : pteU < 1024), ← flags_and pte (by decide : pteR < 1024),
    ← flags_and pte (by decide : pteW < 1024), ← flags_and pte (by decide : pteX < 1024), h]
  unfold flags2perm
  generalize flags &&& 1 = x
  generalize flags &&& 2 = w
  by_cases hx : x = 0 <;> by_cases hw : w = 0 <;> simp [hx, hw] <;> decide

lemma segFlags_lt (flags : Nat) : pteR ||| pteU ||| flags2perm flags ||| pteV < 1024 := by
  have hperm := flags2perm_lt flags
  refine Nat.or_lt_two_pow (n := 10) (Nat.or_lt_two_pow (n := 10) ?_ hperm) ?_ <;> decide

/-- A file with one segment of four bytes and four zeros, at address 0. -/
def tiny : Contents where
  bytes := leBytes 4 elfMagic ++ replicate 28 0 ++ leBytes 8 64 ++ replicate 16 0 ++
    leBytes 2 1 ++ replicate 6 0 ++ leBytes 4 1 ++ leBytes 4 5 ++ leBytes 8 120 ++
    replicate 16 0 ++ leBytes 8 4 ++ leBytes 8 8 ++ replicate 8 0 ++ [0x73, 0, 0, 0]
  small := by simp [leBytes]

lemma runsFirst_tiny : runsFirst tiny.inode = true := by decide +kernel

end

/-- User code of process `p` finds the program of the file. -/
structure Started (d : Contents) (K : Kernel) (p : Nat) : Prop where
  file : ∀ ph ∈ d.segments, ∀ i, i < ph.filesz →
    ∃ b, d.bytes[ph.off + i]? = some b ∧ userByte K p (ph.vaddr + i) = some b
  bss : ∀ ph ∈ d.segments, ∀ i, ph.filesz ≤ i → i < ph.memsz → userByte K p (ph.vaddr + i) = some 0
  perm : ∀ ph ∈ d.segments, ∀ va, ph.vaddr ≤ va → va < ph.vaddr + ph.memsz →
    ∃ pte, mapping K.phys (K.proc p).pagetable va = some pte ∧ pte &&& pteU ≠ 0 ∧ pte &&& pteR ≠ 0 ∧
      (pte &&& pteW ≠ 0 ↔ ph.flags &&& 2 ≠ 0) ∧ (pte &&& pteX ≠ 0 ↔ ph.flags &&& 1 ≠ 0)
  /-- Everything else below the stack page is zero. -/
  zero : ∀ va b, userByte K p va = some b → va < (K.proc p).sz - pgSize →
    (∀ ph ∈ d.segments, ¬ (ph.vaddr ≤ va ∧ va < ph.vaddr + ph.memsz)) → b = 0
  guard : ∀ va, (K.proc p).sz - 2 * pgSize ≤ va → va < (K.proc p).sz - pgSize → userByte K p va = none

/-- If the segments come in order and no offset is cut then a call of `exec` that succeeds has
loaded the program. -/
theorem exec_image {namei : Namei} {path : List UInt8} {argv : List Nat} {res : Int} {d : Contents}
    (hK : Serving K p) (hn : namei path = some d.inode) (hasc : Ascending 0 d.segments)
    (hnarrow : d.Narrow) (hok : exec p namei path argv K = .ok (res, K')) (hres : res ≠ -1) :
    Started d K' p := by
  obtain ⟨⟨o, h⟩, hne⟩ := hK
  obtain ⟨hchecked, r, tf, strs, -, hfits, hc⟩ := exec_loaded h hne hn hok hres
  have hholds := Holds.all hchecked d.segments (Holds.empty d) (fun _ h => absurd h not_mem_nil)
    (fun _ h => h) hasc
  rw [nil_append] at hholds
  have himg : imageOf d.inode d.headers =
      withStack (d.segments.foldl (place d.inode) .empty) := by
    rw [imageOf, foldl_place_filter]
    rfl
  rw [himg] at hc
  generalize d.segments.foldl (place d.inode) .empty = img at hholds hc
  have hsz : (K'.proc p).sz = 4096 * (pages img.size + 2) := by
    rw [hc.sz, ← withStack_size img]
    exact pushStrs_size ..
  have hbyte : ∀ {va}, va < 4096 * (pages img.size + 1) →
      (argImage (withStack img) (withStack img).size strs).byte va = (withStack img).byte va := by
    intro va hva
    refine argImage_byte_of_lt _ ?_
    unfold Fits at hfits
    rw [argTop, withStack_size]
    omega
  -- user code can use the segments
  have hseg : ∀ ph ∈ d.segments, ∀ va, ph.vaddr ≤ va → va < ph.vaddr + ph.memsz →
      va < 4096 * pages img.size ∧ (withStack img).flags (va / 4096) =
        pteR ||| pteU ||| flags2perm ph.flags ||| pteV ∧ (withStack img).User va := by
    intro ph hph va hlo hhi
    have hsize := hholds.size ph hph
    have halign : ph.vaddr % 4096 = 0 := (hchecked.accepted ph hph).aligned
    have hle := le_pages img.size
    have hva : va < 4096 * pages img.size := by omega
    have hflags : (withStack img).flags (va / 4096) = _ :=
      (withStack_flags_of_lt img (div_lt_of_lt hva)).trans
        (hholds.flags ph hph (va / 4096) (by omega) (by omega))
    refine ⟨hva, hflags, by rw [withStack_size, pages_mul]; omega, ?_⟩
    rw [hflags]
    exact (segFlags (Nat.mod_eq_of_lt (segFlags_lt _))).1
  have hread : ∀ ph ∈ d.segments, ∀ i, i < ph.memsz →
      userByte K' p (ph.vaddr + i) = some (img.byte (ph.vaddr + i)) := by
    intro ph hph i hi
    obtain ⟨hva, -, huser⟩ := hseg ph hph (ph.vaddr + i) (by omega) (by omega)
    rw [hc.userByte_of_user (argImage_user.mpr huser), hbyte (by omega), withStack_byte, if_pos hva]
  refine ⟨?_, ?_, ?_, ?_, ?_⟩
  · intro ph hph i hi
    have hle := (hchecked.accepted ph hph).filesz
    have hfile := hholds.file ph hph i hi
    rw [Nat.mod_eq_of_lt (hnarrow.2 ph hph (by omega))] at hfile
    exact ⟨_, hfile, hread ph hph i (by omega)⟩
  · intro ph hph i hlo hhi
    rw [hread ph hph i hhi, hholds.bss ph hph i hlo hhi]
  · intro ph hph va hlo hhi
    obtain ⟨-, hflags, huser⟩ := hseg ph hph va hlo hhi
    obtain ⟨pte, hmap, hpte, -⟩ := hc.mapping (argImage_user.mpr huser)
    refine ⟨pte, hmap, segFlags (hpte.trans ?_)⟩
    exact (congrFun (pushStrs_flags ..) _).trans hflags
  · intro va b hb hva hout
    obtain ⟨-, rfl⟩ := hc.user_of_userByte hb
    rw [hsz] at hva
    unfold pgSize at hva
    rw [hbyte (by omega), withStack_byte]
    split
    next =>
      refine hholds.zero va fun ph hph hin => hout ph hph ?_
      have hle := (hchecked.accepted ph hph).filesz
      omega
    next => rfl
  · intro va hlo hhi
    rw [hsz] at hlo hhi
    unfold pgSize at hlo hhi
    cases hb : userByte K' p va with
    | none => rfl
    | some b =>
      obtain ⟨huser, -⟩ := hc.user_of_userByte hb
      exact absurd (argImage_user.mp huser) (not_user_guard img (by omega) (by omega))

omit [Layout] in
theorem exec_image_tiny :
    letI := crowded
    ∃ A K₀ K', Machine.sixteen.start = .ok (A, K₀) ∧ Serving K₀ 0 ∧ tiny.segments.length = 1 ∧
      Ascending 0 tiny.segments ∧ tiny.Narrow ∧
      exec 0 (fun _ => some tiny.inode) [] [] K₀ = .ok (0, K') ∧ Started tiny K' 0 := by
  let _ := crowded
  obtain ⟨A, K₀, K', hstart, hserving, hexec⟩ := exec_of_runsFirst runsFirst_tiny
  have hseg : tiny.segments = [⟨1, 5, 120, 0, 4, 8⟩] := by decide +kernel
  have hasc : Ascending 0 tiny.segments := by
    rw [hseg]
    exact ⟨Nat.zero_le _, trivial⟩
  have hnarrow : tiny.Narrow := by
    refine ⟨by decide, ?_⟩
    rw [hseg]
    simp
  exact ⟨A, K₀, K', hstart, hserving, by rw [hseg]; rfl, hasc, hnarrow, hexec,
    exec_image hserving rfl hasc hnarrow hexec (by decide)⟩

end Xv6.Process
