import MetalBear.Library.Block
import MetalBear.Library.Machine

/-!
# The body of an upstream's answer

`appview_proxy_write_cb` collects the chunks in a buffer that it grows by doubling the sum of the
capacity and the size of the chunk. That leaves room for the zero byte at the end, unless the sum is
zero or the doubling wraps.
-/

namespace MetalBear.Appview

open Block Machine

/-- `proxy_buf_t`; `data` is the allocated block, if it is not null. -/
structure ProxyBuf where
  data : Option (List UInt8)
  len : Nat
  cap : Nat
  deriving DecidableEq

/-- `proxy_buf_t` before the first chunk. -/
def ProxyBuf.empty : ProxyBuf := ⟨none, 0, 0⟩

/-- What `appview_proxy_write_cb` is called with, and how its `realloc` ends. -/
structure WriteCall where
  chunk : List UInt8
  size_lt : chunk.length < 2 ^ 64
  /-- What the new block happens to hold; nothing where `realloc` fails. -/
  memory : Option (Nat → UInt8)

/-- `memcpy` and the zero byte; nothing where a byte falls outside the block. -/
def ProxyBuf.append (buf : ProxyBuf) (chunk : List UInt8) : Option (ProxyBuf × Nat) := do
  let block ← write (buf.data.getD []) buf.len chunk
  let len := sizeT (buf.len + chunk.length)
  let block ← write block len [0]
  some (⟨some block, len, buf.cap⟩, chunk.length)

/-- `appview_proxy_write_cb`, with what it returns; nothing where it writes outside the allocation
or `realloc` is told to free it. -/
def appviewProxyWriteCb (buf : ProxyBuf) (call : WriteCall) : Option (ProxyBuf × Nat) :=
  let total := call.chunk.length
  if sizeT (buf.len + total + 1) > buf.cap then
    let newcap := sizeT ((buf.cap + total) * 2)
    if newcap = 0 ∧ buf.data.isSome then none
    else
      match call.memory with
      | none => some (buf, 0)
      | some memory =>
        ProxyBuf.append ⟨some (resize (buf.data.getD []) newcap memory), buf.len, newcap⟩ call.chunk
  else buf.append call.chunk

/-! ## Transfers -/

/-- A transfer under way: the buffer, and the bytes of the chunks that were accepted. -/
structure Transfer where
  buf : ProxyBuf
  accepted : List UInt8

def Transfer.start : Transfer := ⟨ProxyBuf.empty, []⟩

/-- A call accepts its chunk when it returns its size. -/
def Transfer.step (s : Transfer) (call : WriteCall) : Transfer :=
  match appviewProxyWriteCb s.buf call with
  | none => s
  | some (buf, n) => ⟨buf, if n = call.chunk.length then s.accepted ++ call.chunk else s.accepted⟩

/-- The buffer holds these bytes and a zero byte, in a block that has more than their number. -/
structure Holds (buf : ProxyBuf) (bytes : List UInt8) : Prop where
  block : ∃ block, buf.data = some block ∧ block.length = buf.cap ∧
    block.take (buf.len + 1) = bytes ++ [0]
  len_eq : buf.len = bytes.length
  len_lt : buf.len < buf.cap
  cap_lt : buf.cap < 2 ^ 64

/-- The call writes nothing outside the allocation; if it accepts its chunk then the buffer holds
what was accepted, and otherwise it is as it was. -/
def Sound (s : Transfer) (call : WriteCall) : Prop :=
  match appviewProxyWriteCb s.buf call with
  | none => False
  | some (buf, n) =>
    if n = call.chunk.length then Holds buf (s.accepted ++ call.chunk) else buf = s.buf

/-- There is room for the chunk and the zero byte, before or after the doubling in 64 bits; or there
is something to refuse, and it is refused. -/
def Roomy (s : Transfer) (call : WriteCall) : Prop :=
  s.buf.len + call.chunk.length < s.buf.cap ∨
  s.buf.len + call.chunk.length < sizeT ((s.buf.cap + call.chunk.length) * 2) ∨
  call.memory = none ∧ call.chunk ≠ [] ∧ s.buf.len + call.chunk.length + 1 < 2 ^ 64 ∧
    (sizeT ((s.buf.cap + call.chunk.length) * 2) = 0 → s.buf.data = none)

/-- What holds between two calls; before the first one there is no block. -/
structure Transfer.Good (s : Transfer) : Prop where
  length_block : (s.buf.data.getD []).length = s.buf.cap
  take_block : (s.buf.data.getD []).take s.buf.len = s.accepted
  len_eq : s.buf.len = s.accepted.length
  len_lt : s.buf.data ≠ none → s.buf.len < s.buf.cap
  cap_lt : s.buf.cap < 2 ^ 64

variable {buf : ProxyBuf} {bytes chunk block : List UInt8} {s : Transfer} {call : WriteCall}

theorem good_start : Transfer.start.Good where
  length_block := rfl
  take_block := rfl
  len_eq := rfl
  len_lt := fun h => absurd rfl h
  cap_lt := by decide

theorem Holds.good (h : Holds buf bytes) : Transfer.Good ⟨buf, bytes⟩ := by
  obtain ⟨block, hdata, hlength, htake⟩ := h.block
  have hblock : buf.data.getD [] = block := by rw [hdata, Option.getD_some]
  refine ⟨by rw [hblock, hlength], ?_, h.len_eq, fun _ => h.len_lt, h.cap_lt⟩
  have hshorter := congrArg (List.take buf.len) htake
  rw [List.take_take, Nat.min_eq_left (Nat.le_succ _), List.take_left' h.len_eq.symm] at hshorter
  rw [hblock]
  exact hshorter

/-- Where there is room, the chunk follows what the block holds. -/
theorem append_holds (hdata : buf.data = some block) (hblock : block.length = buf.cap)
    (hbytes : block.take buf.len = bytes) (hlen : buf.len = bytes.length)
    (hcap : buf.cap < 2 ^ 64) (hroom : buf.len + chunk.length < buf.cap) :
    ∃ next, buf.append chunk = some (next, chunk.length) ∧ Holds next (bytes ++ chunk) := by
  have hlenT : sizeT (buf.len + chunk.length) = buf.len + chunk.length :=
    sizeT_of_lt (by omega)
  obtain ⟨copied, hcopied⟩ : ∃ copied, write block buf.len chunk = some copied :=
    Option.isSome_iff_exists.mp (write_isSome.mpr (by omega))
  have hcopiedLength := length_write hcopied
  obtain ⟨ended, hended⟩ : ∃ ended, write copied (buf.len + chunk.length) [0] = some ended := by
    apply Option.isSome_iff_exists.mp
    apply write_isSome.mpr
    rw [List.length_singleton]
    omega
  refine ⟨⟨some ended, buf.len + chunk.length, buf.cap⟩, ?_, ⟨ended, rfl, ?_, ?_⟩, ?_, hroom, hcap⟩
  · simp only [ProxyBuf.append, hdata, Option.getD_some, hcopied, hlenT, Option.bind_eq_bind,
      Option.bind_some, hended]
  · rw [length_write hended, hcopiedLength, hblock]
  · have htake := take_write hended
    rw [List.length_singleton] at htake
    rw [htake, take_write hcopied, hbytes]
  · rw [List.length_append, hlen]

/-- Without room for the zero byte, a byte falls outside the block. -/
theorem append_eq_none (hroom : (buf.data.getD []).length ≤ buf.len + chunk.length)
    (hblock : (buf.data.getD []).length < 2 ^ 64) : buf.append chunk = none := by
  rw [ProxyBuf.append, Option.bind_eq_bind]
  cases hcopied : write (buf.data.getD []) buf.len chunk with
  | none => rfl
  | some copied =>
    have hlength := length_write hcopied
    have hfits := write_isSome.mp (by rw [hcopied]; rfl)
    have hlenT : sizeT (buf.len + chunk.length) = buf.len + chunk.length :=
      sizeT_of_lt (by omega)
    have hended : write copied (buf.len + chunk.length) [0] = none := by
      apply write_eq_none
      rw [List.length_singleton]
      omega
    simp only [Option.bind_some, hlenT, hended, Option.bind_none]

namespace Transfer.Good

/-- Before the first chunk that was accepted there is no capacity. -/
theorem cap_eq_zero (h : s.Good) (hnone : s.buf.data = none) : s.buf.cap = 0 := by
  rw [← h.length_block, hnone]
  rfl

theorem len_le_cap (h : s.Good) : s.buf.len ≤ s.buf.cap := by
  have htake := congrArg List.length h.take_block
  rw [List.length_take, h.length_block, ← h.len_eq] at htake
  omega

/-- The chunk fits the block as it is. -/
theorem sound_of_fits (h : s.Good) (hroom : s.buf.len + call.chunk.length < s.buf.cap) :
    Sound s call := by
  have hcap := h.cap_lt
  obtain ⟨block, hdata⟩ : ∃ block, s.buf.data = some block := by
    apply Option.ne_none_iff_exists'.mp
    intro hnone
    have := h.cap_eq_zero hnone
    omega
  have hblock : s.buf.data.getD [] = block := by rw [hdata, Option.getD_some]
  have hstay : ¬ sizeT (s.buf.len + call.chunk.length + 1) > s.buf.cap := by
    rw [sizeT_of_lt (by omega)]
    omega
  obtain ⟨next, hnext, hholds⟩ := append_holds hdata (hblock ▸ h.length_block)
    (hblock ▸ h.take_block) h.len_eq hcap hroom
  rw [Sound, appviewProxyWriteCb, if_neg hstay, hnext]
  simpa using hholds

/-- The sum that is compared with the capacity wraps. -/
theorem not_sound_of_wraps (h : s.Good) (hroom : s.buf.cap ≤ s.buf.len + call.chunk.length)
    (hwrap : 2 ^ 64 ≤ s.buf.len + call.chunk.length + 1) : ¬ Sound s call := by
  have hsize := call.size_lt
  have hcap := h.cap_lt
  have hle := h.len_le_cap
  have hstay : ¬ sizeT (s.buf.len + call.chunk.length + 1) > s.buf.cap := by
    rw [sizeT]
    omega
  rw [Sound, appviewProxyWriteCb, if_neg hstay, append_eq_none]
  · exact not_false
  · rwa [h.length_block]
  · rwa [h.length_block]

/-- Where `realloc` fails, a chunk that is not empty is refused; an empty one counts as accepted,
although there is no block. -/
theorem sound_of_no_memory_iff (h : s.Good)
    (hroom : s.buf.cap ≤ s.buf.len + call.chunk.length)
    (hgrow : sizeT (s.buf.len + call.chunk.length + 1) > s.buf.cap)
    (hfree : ¬ (sizeT ((s.buf.cap + call.chunk.length) * 2) = 0 ∧ s.buf.data.isSome))
    (hmemory : call.memory = none) : Sound s call ↔ call.chunk ≠ [] := by
  simp only [Sound, appviewProxyWriteCb, if_pos hgrow, if_neg hfree, hmemory]
  by_cases hchunk : call.chunk = []
  · have hnull : s.buf.data = none := by
      by_contra hne
      have := h.len_lt hne
      rw [hchunk, List.length_nil] at hroom
      omega
    refine iff_of_false ?_ fun hne => hne hchunk
    simp only [hchunk, List.length_nil, if_pos]
    intro hholds
    have := hholds.len_lt
    have := h.cap_eq_zero hnull
    omega
  · have hne : ¬ 0 = call.chunk.length := fun hzero =>
      hchunk (List.length_eq_zero_iff.mp hzero.symm)
    exact iff_of_true (by simp only [if_neg hne]) hchunk

/-- Where `realloc` gives a block, the chunk is appended if it fits that one. -/
theorem sound_of_memory_iff (h : s.Good)
    (hgrow : sizeT (s.buf.len + call.chunk.length + 1) > s.buf.cap)
    (hfree : ¬ (sizeT ((s.buf.cap + call.chunk.length) * 2) = 0 ∧ s.buf.data.isSome))
    {memory : Nat → UInt8} (hmemory : call.memory = some memory) : Sound s call ↔
      s.buf.len + call.chunk.length < sizeT ((s.buf.cap + call.chunk.length) * 2) := by
  have hle := h.len_le_cap
  simp only [Sound, appviewProxyWriteCb, if_pos hgrow, if_neg hfree, hmemory]
  by_cases hnew : s.buf.len + call.chunk.length <
      sizeT ((s.buf.cap + call.chunk.length) * 2)
  · refine iff_of_true ?_ hnew
    have hkept : (resize (s.buf.data.getD [])
        (sizeT ((s.buf.cap + call.chunk.length) * 2)) memory).take s.buf.len = s.accepted := by
      rw [take_resize (h.length_block.symm ▸ hle) (by omega), h.take_block]
    let grown : ProxyBuf := ⟨some (resize (s.buf.data.getD [])
        (sizeT ((s.buf.cap + call.chunk.length) * 2)) memory), s.buf.len,
        sizeT ((s.buf.cap + call.chunk.length) * 2)⟩
    obtain ⟨next, hnext, hholds⟩ : ∃ next, grown.append call.chunk =
        some (next, call.chunk.length) ∧ Holds next (s.accepted ++ call.chunk) :=
      append_holds rfl length_resize hkept h.len_eq (sizeT_lt _) hnew
    rw [hnext]
    simpa using hholds
  · refine iff_of_false ?_ hnew
    rw [append_eq_none]
    · exact not_false
    · rw [Option.getD_some, length_resize]
      exact Nat.le_of_not_lt hnew
    · rw [Option.getD_some, length_resize]
      exact sizeT_lt _

end Transfer.Good

/-- Between two calls, a call does what it should if and only if there is room. -/
theorem sound_iff_roomy (h : s.Good) : Sound s call ↔ Roomy s call := by
  have hsize := call.size_lt
  have hcap := h.cap_lt
  have hle := h.len_le_cap
  by_cases hroom : s.buf.len + call.chunk.length < s.buf.cap
  · exact iff_of_true (h.sound_of_fits hroom) (Or.inl hroom)
  have hfull := Nat.le_of_not_lt hroom
  by_cases hwrap : 2 ^ 64 ≤ s.buf.len + call.chunk.length + 1
  · have hnewcap := sizeT_lt ((s.buf.cap + call.chunk.length) * 2)
    refine iff_of_false (h.not_sound_of_wraps hfull hwrap) ?_
    rintro (hfits | hfits | ⟨-, -, hsum, -⟩) <;> omega
  have hgrow : sizeT (s.buf.len + call.chunk.length + 1) > s.buf.cap := by
    rw [sizeT_of_lt (by omega)]
    omega
  by_cases hfree : sizeT ((s.buf.cap + call.chunk.length) * 2) = 0 ∧ s.buf.data.isSome
  · -- `realloc` is told to free the block.
    refine iff_of_false (by simp [Sound, appviewProxyWriteCb, if_pos hgrow, hfree]) ?_
    rintro (hfits | hfits | ⟨-, -, -, hnull⟩)
    · exact hroom hfits
    · rw [hfree.1] at hfits
      exact Nat.not_lt_zero _ hfits
    · rw [hnull hfree.1] at hfree
      exact absurd hfree.2 (by simp)
  cases hmemory : call.memory with
  | none =>
    rw [h.sound_of_no_memory_iff hfull hgrow hfree hmemory]
    constructor
    · refine fun hchunk => Or.inr (Or.inr ⟨hmemory, hchunk, Nat.lt_of_not_le hwrap, fun hzero => ?_⟩)
      by_contra hnull
      exact hfree ⟨hzero, Option.isSome_iff_ne_none.mpr hnull⟩
    · rintro (hfits | hfits | ⟨-, hchunk, -⟩)
      · exact absurd hfits hroom
      · -- An empty chunk: there is no block, and none would be asked for.
        rintro hchunk
        rw [hchunk, List.length_nil] at hfits hfull
        have hnull : s.buf.data = none := by
          by_contra hne
          have := h.len_lt hne
          omega
        rw [h.cap_eq_zero hnull] at hfits
        exact Nat.not_lt_zero _ hfits
      · exact hchunk
  | some memory =>
    rw [h.sound_of_memory_iff hgrow hfree hmemory]
    constructor
    · exact fun hnew => Or.inr (Or.inl hnew)
    · rintro (hfits | hfits | ⟨hnone, -⟩)
      · exact absurd hfits hroom
      · exact hfits
      · rw [hmemory] at hnone
        cases hnone

theorem Sound.good (hgood : s.Good) (h : Sound s call) : (s.step call).Good := by
  rw [Sound] at h
  rw [Transfer.step]
  split at h
  · exact h.elim
  · next buf n _ =>
    by_cases hn : n = call.chunk.length
    · rw [if_pos hn] at h ⊢
      exact h.good
    · rw [if_neg hn] at h ⊢
      rw [h]
      exact hgood

/-- Over every sequence of chunks, the buffer holds what was accepted, with a zero byte and inside
the allocation, if and only if there is always room. -/
theorem proxyBuffer_sound_iff (run : List WriteCall) :
    Steps Transfer.step Sound Transfer.start run ↔
      Steps Transfer.step Roomy Transfer.start run := by
  constructor
  · exact Steps.imp good_start (fun s call hgood hsound => (sound_iff_roomy hgood).mp hsound)
      fun s call hgood hsound => hsound.good hgood
  · exact Steps.imp good_start (fun s call hgood hroomy => (sound_iff_roomy hgood).mpr hroomy)
      fun s call hgood hroomy => ((sound_iff_roomy hgood).mpr hroomy).good hgood

/-- A first chunk without bytes, where `realloc` gives a block of size zero. -/
def emptyFirst : WriteCall := ⟨[], by decide, some fun _ => 0⟩

/-- Its zero byte falls outside the block. -/
theorem empty_first_chunk_overflows :
    appviewProxyWriteCb ProxyBuf.empty emptyFirst = none ∧
      ¬ Steps Transfer.step Sound Transfer.start [emptyFirst] := by
  have hnone : appviewProxyWriteCb ProxyBuf.empty emptyFirst = none := by rfl
  refine ⟨hnone, fun h => ?_⟩
  have hsound : Sound Transfer.start emptyFirst := h.1
  rw [Sound] at hsound
  exact hsound

end MetalBear.Appview
