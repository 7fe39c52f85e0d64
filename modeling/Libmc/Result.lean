import Libmc.ParserView

/-!
# Collecting retrieval results

A retrieval result is handed out with its tokens turned into byte strings (`inner`). A result whose
data block has not been read completely is left out (`collectRetrievalResult`).
-/

namespace Libmc

/-- `retrieval_result_t`; `none` is `NULL`. -/
structure RetrievalResultInner where
  key : Option Bytes
  dataBlock : Option Bytes
  casUnique : ℕ
  bytes : ℕ
  flags : ℕ
  keyLen : ℕ
  deriving DecidableEq, Repr

namespace PacketParser

/-- `RetrievalResult::inner`. -/
def inner (p : Blocks) (r1 : RetrievalResult TokenData) : RetrievalResultInner where
  key := parseTokenData p.bufferReader.dataBlockList r1.key r1.keyLen
  dataBlock := parseTokenData p.bufferReader.dataBlockList r1.dataBlock r1.bytes
  casUnique := r1.casUnique
  bytes := r1.bytes
  flags := r1.flags
  keyLen := r1.keyLen

/-- The results of one connection that `collectRetrievalResult` does not skip. -/
def completeResults (p : Blocks) : List RetrievalResultInner :=
  (p.retrievalResults.filter fun r1 => r1.bytesRemain = 0).map p.inner

end PacketParser

/-- `ConnectionPool::collectRetrievalResult`, on the parsers of the active connections. -/
def collectRetrievalResult (activeConns : List PacketParser.Blocks) : List RetrievalResultInner :=
  activeConns.flatMap PacketParser.completeResults

theorem parseTokenData_eq {bl : List DataBlock} {td : TokenData} {n : ℕ} (hv : ValidToken bl td)
    (hn : (tokenBytes bl td).length = n) :
    parseTokenData bl td n = if n = 0 then none else some (tokenBytes bl td) := by
  have hsize := tokenSize_eq hv
  have hle : ¬ tokenSize td > n := by omega
  unfold parseTokenData
  by_cases h0 : n = 0
  · rw [if_pos h0, if_pos h0]
  · rw [if_neg h0, if_neg h0]
    match td with
    | [s] =>
      have hs : s.size = n := by
        rw [← hn, ← hsize, tokenSize, List.map_singleton, List.sum_singleton]
      simp [tokenBytes, sliceBytes, hs]
    | [] => exact absurd hn.symm h0
    | s :: s' :: td => exact if_neg hle

namespace PacketParser

/-- `inner` of a result over bytes, if the lengths are right. -/
def innerFlat (kv : RetrievalResult Bytes) : RetrievalResultInner where
  key := if kv.keyLen = 0 then none else some kv.key
  dataBlock := if kv.bytes = 0 then none else some kv.dataBlock
  casUnique := kv.casUnique
  bytes := kv.bytes
  flags := kv.flags
  keyLen := kv.keyLen

theorem inner_eq {p : Blocks} (h : p.Ok) {r1 : RetrievalResult TokenData}
    (hr : r1 ∈ p.retrievalResults) (hkey : (p.token r1.key).length = r1.keyLen)
    (hdata : (p.token r1.dataBlock).length = r1.bytes) :
    p.inner r1 = innerFlat (r1.map p.token) := by
  obtain ⟨hk, hd⟩ := h.results r1 hr
  unfold inner
  rw [parseTokenData_eq hk hkey, parseTokenData_eq hd hdata]
  rfl

/-- The results that `collectRetrievalResult` does not skip. -/
def finished (v : Flat) : List (RetrievalResult Bytes) :=
  v.retrievalResults.filter fun kv => kv.bytesRemain = 0

/-- Collecting can be read off the view, if the lengths are right. -/
theorem completeResults_eq {p : Blocks} (h : p.Ok)
    (hlen : ∀ kv ∈ p.view.finished, kv.key.length = kv.keyLen ∧ kv.dataBlock.length = kv.bytes) :
    p.completeResults = p.view.finished.map innerFlat := by
  have hfin : p.view.finished =
      (p.retrievalResults.filter fun r1 => r1.bytesRemain = 0).map (·.map p.token) := by
    unfold finished view
    rw [List.filter_map]
    rfl
  rw [hfin] at hlen ⊢
  unfold completeResults
  rw [List.map_map]
  refine List.map_congr_left fun r1 hr => ?_
  obtain ⟨hkey, hdata⟩ := hlen _ (List.mem_map_of_mem hr)
  exact inner_eq h (List.mem_of_mem_filter hr) hkey hdata

end PacketParser

end Libmc
