import TestForge.ResponseCompleteness
import TestForge.Segmentation

/-! How far a response depends on the pieces in which it arrives. The client looks at the end of
the head, the end of the body and the cap only between two pieces, so each of them matters when
one piece can carry it over the limit in front. -/
namespace TestForge.HttpClient

open Sequence Strings Chunked Segmentation

/-- The longest result of one `recv`. -/
def readChunk : Nat := 16384

/-- What a caller sees of a response, its two texts for people left out. The truncation flag is
one of the headers. -/
def shown (response : HttpResponse) : HttpResponse := { response with statusText := [], errorMessage := [] }

/-- Letters of chunk data, in order, from the first chunk on; the last chunk may be cut short. -/
inductive ChunkData : Bytes → Bytes → Prop
  | nil (text : Bytes) : ChunkData text []
  | part {text line data rest : Bytes} {size : Nat} (first : Line text line (data ++ rest))
      (announces : announced line = some size) (within : data.length ≤ size) : ChunkData text data
  | chunk {text line data ending rest out : Bytes} (first : Line text line (data ++ ending ++ rest))
      (size : announced line = some data.length) (two : ending.length = 2)
      (others : ChunkData rest out) : ChunkData text (data ++ out)

/-- A response before anything is received. -/
def blank (request : HttpRequest) : HttpResponse where
  requestMethod := request.method
  requestUrl := request.url

/-- The response to a request when the server's stream arrives in these pieces and then ends. -/
def respond (cap : Nat) (request : HttpRequest) (pieces : List Bytes) : Option HttpResponse :=
  receive cap { received := pieces } (blank request)

/-- The pieces make no difference, and no response has too long a body or framing in it. -/
structure Independent (cap : Nat) (request : HttpRequest) (stream : Bytes) : Prop where
  same : ∀ pieces others, Segments readChunk stream pieces → Segments readChunk stream others →
    (respond cap request pieces).map shown = (respond cap request others).map shown
  capped : ∀ pieces response, Segments readChunk stream pieces → respond cap request pieces = some response →
    response.transportError = false → response.body.length ≤ cap
  unframed : ∀ pieces response, Segments readChunk stream pieces → respond cap request pieces = some response →
    response.transportError = false → framing response.headers = .chunked →
    ∀ head behind, cutOn headEnd stream = some (head,behind) → ChunkData behind response.body

/-- The chunks of a text come to an end, or to a line that is no size. -/
def Settled (text : Bytes) : Prop := ∃ stop out, stop ≠ .unfinished ∧ Ends text stop out

/-- Whether the body is settled does not depend on the pieces. -/
def Steady (cap : Nat) (headers : HttpHeaders) (behind : Bytes) : Prop :=
  match framing headers with
  | .untilClose => True
  | .length bytes => bytes ≤ cap ∨ cap + readChunk < bytes ∨ behind.length < bytes
  | .chunked => Settled (behind.take (cap + 1)) ∨ ChunkData behind (behind.take cap) ∧
      (Settled (behind.take (cap + readChunk)) → Terminated (behind.take (cap + readChunk)) (behind.take cap) ∧
        headers.set truncatedFlag (ascii "true") = headers)

/-- A head that is always found in time, or never, and a steady body. -/
def SteadyStream (cap : Nat) (request : HttpRequest) (stream : Bytes) : Prop :=
  ∀ head behind statusCode statusText headers, cutOn headEnd stream = some (head,behind) →
    Reads head statusCode statusText headers → maxHeaderBytes + readChunk < head.length + 4 ∨
      head.length + 4 ≤ maxHeaderBytes + 1 ∧ (bodyless request.method statusCode ∨ Steady cap headers behind)

/-- No number wraps in what some run reads of a chunked body. -/
def StreamFits (cap : Nat) (request : HttpRequest) (stream : Bytes) : Prop :=
  ∀ head behind statusCode statusText headers, cutOn headEnd stream = some (head,behind) →
    Reads head statusCode statusText headers → head.length + 4 ≤ maxHeaderBytes + 1 →
    ¬bodyless request.method statusCode → framing headers = .chunked → NoWrap (behind.take (cap + readChunk))

/-! ### Chunk data -/

theorem ChunkData.append (data : ChunkData text out) (more : Bytes) : ChunkData (text ++ more) out := by
  induction data with
  | nil => exact .nil _
  | part first announces within => exact .part (by simpa using first.append more) announces within
  | chunk first size two _ ih => exact .chunk (by simpa using first.append more) size two ih

theorem ChunkData.of_chunks (chunks : Chunks text out left) : ChunkData text out := by
  induction chunks with
  | nil => exact .nil _
  | chunk first size _ two _ ih => exact .chunk first size two ih

theorem terminated_length (terminated : Terminated text out) : out.length + 3 ≤ text.length := by
  obtain ⟨left,chunks,line,rest,first,zero⟩ := terminated
  have total := congrArg List.length first.whole
  have nonempty : 0 < line.length := by
    cases line with
    | nil => cases zero
    | cons => simp
  have inside := chunks.length
  simp only [List.length_append,crlf,List.length_cons,List.length_nil] at total
  omega

/-- Two beginnings of one text whose chunks come to an end do so in the same way. -/
theorem ends_of_parts (one : Ends text stop out) (settled : stop ≠ .unfinished) (inside : text <+: longer)
    (other : Ends text' stop' out') (settled' : stop' ≠ .unfinished) (inside' : text' <+: longer) :
    stop = stop' ∧ out = out' := by
  obtain ⟨more,rfl⟩ := inside
  obtain ⟨others,same⟩ := inside'
  exact (one.append settled more).unique (same ▸ other.append settled' others)

theorem Settled.append (settled : Settled text) (more : Bytes) : Settled (text ++ more) := by
  obtain ⟨stop,out,finished,ends⟩ := settled
  exact ⟨stop,out,finished,ends.append finished more⟩

theorem Settled.mono (settled : Settled text) (inside : text <+: longer) : Settled longer := by
  obtain ⟨more,rfl⟩ := inside
  exact settled.append more

section

variable {cap : Nat} {behind : Bytes} (fits : NoWrap (behind.take (cap + readChunk)))
include fits

/-- The buffers of all runs are parts of the stream that end at most one piece beyond the cap. -/
theorem noWrap_part (seen : Bytes) (part : seen <+: behind) (near : seen.length ≤ cap + readChunk) : NoWrap seen :=
  fits.part (List.prefix_take_iff.mpr ⟨part,near⟩)

theorem bodyOf_part (seen : Bytes) (part : seen <+: behind) (near : seen.length ≤ cap + readChunk)
    (ends : Ends seen stop out) : bodyOf .chunked seen = stoppedBody out stop :=
  bodyOf_chunked seen (noWrap_part fits seen part near) stop out ends

theorem ends_part (seen : Bytes) (part : seen <+: behind) (near : seen.length ≤ cap + readChunk) :
    ∃ stop out, Ends seen stop out := by
  obtain ⟨stop,out,ends,_⟩ := decodeChunked_ends seen (noWrap_part fits seen part near)
  exact ⟨stop,out,ends⟩

theorem bodyOf_unsettled (seen : Bytes) (part : seen <+: behind) (near : seen.length ≤ cap + readChunk)
    (unsettled : ¬Settled seen) : bodyOf .chunked seen = none := by
  obtain ⟨stop,out,ends⟩ := ends_part fits seen part near
  rw [bodyOf_part fits seen part near ends]
  cases stop with
  | unfinished => rfl
  | malformed => exact absurd ⟨_,out,by decide,ends⟩ unsettled
  | terminated => exact absurd ⟨_,out,by decide,ends⟩ unsettled

end

/-! ### The head in pieces -/

theorem cutOn_prefix (block text before after part : Bytes) (found : cutOn block text = some (before,after))
    (inside : part <+: text) : cutOn block part =
      if (before ++ block).length ≤ part.length then some (before,part.drop (before ++ block).length) else none := by
  obtain ⟨more,rfl⟩ := inside
  cases early : cutOn block part with
  | some parts =>
    obtain ⟨front,back⟩ := parts
    have longer := cutOn_append_left _ _ _ _ more early
    rw [found,Option.some.injEq,Prod.mk.injEq] at longer
    obtain ⟨rfl,-⟩ := longer
    rw [cutOn_split _ _ _ _ early,if_pos (by simp),List.drop_left]
  | none =>
    rw [if_neg fun reach => (cutOn_eq_none _ _).mp early ?_]
    have whole := cutOn_split _ _ _ _ found
    have within : before ++ block <+: part :=
      List.prefix_of_prefix_length_le ⟨after,whole.symm⟩ (List.prefix_append part more) reach
    exact (List.infix_append' before block []).trans (by simpa using within.isInfix)

theorem headEnd_length : headEnd.length = 4 := rfl

theorem HeadArrives.short (arrives : HeadArrives pieces head first later) (segments : Segments readChunk stream pieces) :
    head.length + 4 ≤ maxHeaderBytes + readChunk ∧ first.length ≤ readChunk ∧
      ∀ piece ∈ later, piece.length ≤ readChunk := by
  obtain ⟨early,piece,rfl,fits,none,found⟩ := arrives
  have small := (segments.sizes piece (by simp)).2
  have total := congrArg List.length (cutOn_split _ _ _ _ found)
  simp only [List.length_append,headEnd_length] at total
  have before := cutOn_prefix _ _ _ _ _ found (List.prefix_append early.flatten piece)
  rw [none] at before
  have unreached : ¬(head ++ headEnd).length ≤ early.flatten.length := fun reach => by
    rw [if_pos reach] at before
    cases before
  rw [List.length_append,headEnd_length] at unreached
  exact ⟨by omega,by omega,fun other member => (segments.sizes other (by simp [member])).2⟩

/-- A piece that reaches the end of the head, when there was not too much in front of it. -/
theorem arrives_of_reach (cuts : cutOn headEnd (early ++ piece :: later).flatten = some (head,behind))
    (fits : early.flatten.length ≤ maxHeaderBytes) (before : early.flatten.length < head.length + 4)
    (reach : head.length + 4 ≤ (early.flatten ++ piece).length) :
    ∃ first, HeadArrives (early ++ piece :: later) head first later ∧ behind = first ++ later.flatten := by
  have whole : (early ++ piece :: later).flatten = early.flatten ++ piece ++ later.flatten := by simp
  have absent := cutOn_prefix _ _ _ _ early.flatten cuts (by rw [whole,List.append_assoc]; exact List.prefix_append _ _)
  rw [if_neg (by rw [List.length_append,headEnd_length]; omega)] at absent
  have found := cutOn_prefix _ _ _ _ (early.flatten ++ piece) cuts (by rw [whole]; exact List.prefix_append _ _)
  rw [if_pos (by rw [List.length_append,headEnd_length]; omega)] at found
  have arrives : HeadArrives (early ++ piece :: later) head _ later := ⟨early,piece,rfl,fits,absent,found⟩
  have same := arrives.whole
  rw [cuts,Option.some.injEq,Prod.mk.injEq] at same
  exact ⟨_,arrives,same.2⟩

theorem arrives_in_time (cuts : cutOn headEnd pieces.flatten = some (head,behind))
    (short : head.length + 4 ≤ maxHeaderBytes + 1) :
    ∃ first later, HeadArrives pieces head first later ∧ behind = first ++ later.flatten := by
  have total := congrArg List.length (cutOn_split _ _ _ _ cuts)
  simp only [List.length_append,headEnd_length] at total
  obtain ⟨early,piece,later,rfl,before,reach⟩ := exists_reach pieces (head.length + 4) (by omega) (by omega)
  obtain ⟨first,arrives,same⟩ := arrives_of_reach cuts (by omega) before reach
  exact ⟨first,later,arrives,same⟩

/-! ### The body in pieces -/

/-- Every run stops at a buffer one piece beyond the cap at most, or at the end of the stream. -/
theorem readBody_outcome (cap : Nat) (framing : Framing) (first : Bytes) (later : List Bytes)
    (short : first.length ≤ readChunk) (sizes : ∀ piece ∈ later, piece.length ≤ readChunk) :
    (∃ seen, seen <+: first ++ later.flatten ∧ seen.length ≤ cap + readChunk ∧ ¬Continues cap framing seen ∧
      readBody cap framing none later first = settledBody cap framing seen) ∨
    Continues cap framing (first ++ later.flatten) ∧
      readBody cap framing none later first = .complete (first ++ later.flatten) := by
  obtain ⟨early,rest,rfl,reads,stops⟩ := readBody_stops cap framing later first
  have whole := readBody_reads cap framing none early rest first reads
  rcases stops with settled | ⟨rfl,continues⟩
  · refine .inl ⟨first ++ early.flatten,⟨rest.flatten,by simp⟩,?_,settled,?_⟩
    · cases early using List.reverseRecOn with
      | nil =>
        rw [List.flatten_nil,List.append_nil]
        omega
      | append_singleton early last =>
        have within := (reads early [last] rfl (by simp)).2
        have piece := sizes last (by simp)
        simp only [List.flatten_append,List.flatten_cons,List.flatten_nil,List.append_nil,List.length_append] at within ⊢
        omega
    · rw [whole]
      exact readBody_settled cap framing none rest _ settled
  · rw [List.append_nil] at whole ⊢
    exact .inr ⟨continues,by rw [whole]; exact readBody_closed cap framing none _ continues⟩

/-- The body is short enough and holds no framing. -/
def BodyFine (cap : Nat) (headers : HttpHeaders) (behind : Bytes) : Body → Prop
  | .complete body => body.length ≤ cap ∧ (framing headers = .chunked → ChunkData behind body)
  | .truncated body => body.length ≤ cap ∧ (framing headers = .chunked → ChunkData behind body)
  | _ => True

theorem not_continues (cap : Nat) (framing : Framing) (seen : Bytes) (settled : ¬Continues cap framing seen)
    (undecided : bodyOf framing seen = none) : cap < seen.length := by
  by_contra small
  exact settled ⟨undecided,by omega⟩

theorem settledBody_undecided (cap : Nat) (framing : Framing) (seen behind : Bytes) (part : seen <+: behind)
    (settled : ¬Continues cap framing seen) (undecided : bodyOf framing seen = none) :
    settledBody cap framing seen = .truncated (behind.take cap) ∧ cap < behind.length := by
  have large := not_continues cap framing seen settled undecided
  obtain ⟨more,rfl⟩ := part
  rw [settledBody,undecided,List.take_append_of_le_length large.le,List.length_append]
  exact ⟨rfl,by omega⟩

section

variable {cap : Nat} {headers : HttpHeaders} {behind first : Bytes} {later : List Bytes}
  (short : first.length ≤ readChunk) (sizes : ∀ piece ∈ later, piece.length ≤ readChunk)
  (whole : behind = first ++ later.flatten)
include short sizes whole

theorem readBody_unsettled (framing : Framing) (undecided : ∀ seen, seen <+: behind →
    seen.length ≤ cap + readChunk → bodyOf framing seen = none) : readBody cap framing none later first =
      if cap < behind.length then .truncated (behind.take cap) else .complete behind := by
  subst whole
  rcases readBody_outcome cap framing first later short sizes with ⟨seen,part,near,settled,body⟩ | ⟨continues,body⟩
  · obtain ⟨truncated,large⟩ := settledBody_undecided cap framing seen _ part settled (undecided seen part near)
    rw [body,truncated,if_pos large]
  · rw [body,if_neg (by have := continues.2; omega)]

theorem readBody_length (bytes : Nat) (steady : bytes ≤ cap ∨ cap + readChunk < bytes ∨ behind.length < bytes) :
    readBody cap (.length bytes) none later first =
      if bytes ≤ cap ∧ bytes ≤ behind.length then .complete (behind.take bytes)
      else if cap < behind.length then .truncated (behind.take cap) else .complete behind := by
  by_cases early : bytes ≤ cap ∧ bytes ≤ behind.length
  · rw [if_pos early]
    subst whole
    rcases readBody_outcome cap (.length bytes) first later short sizes with
      ⟨seen,part,near,settled,body⟩ | ⟨continues,body⟩
    · have enough : bytes ≤ seen.length := by
        by_contra missing
        have large := not_continues cap _ seen settled ((bodyOf_length_none bytes seen).mpr (by omega))
        omega
      obtain ⟨more,text⟩ := part
      rw [body,settledBody,bodyOf,if_pos enough,← text,List.take_append_of_le_length enough]
      rfl
    · have missing := (bodyOf_length_none bytes _).mp continues.1
      omega
  · rw [if_neg early]
    refine readBody_unsettled short sizes whole _ fun seen part near => ?_
    rw [bodyOf_length_none]
    have inside := part.length_le
    omega

theorem readBody_chunked_early (fits : NoWrap (behind.take (cap + readChunk))) (stop : Stop) (out : Bytes)
    (finished : stop ≠ .unfinished) (ends : Ends (behind.take (cap + 1)) stop out) :
    some (readBody cap .chunked none later first) = stoppedBody out stop := by
  have ends_longer (seen : Bytes) (part : seen <+: behind) (large : cap < seen.length) : Ends seen stop out := by
    have shorter : behind.take (cap + 1) <+: seen :=
      List.prefix_of_prefix_length_le (List.take_prefix _ _) part (by rw [List.length_take]; omega)
    obtain ⟨more,text⟩ := shorter
    exact text ▸ ends.append finished more
  have decided : stoppedBody out stop ≠ none := by cases stop <;> simp_all [stoppedBody]
  rw [whole] at ends_longer
  rcases readBody_outcome cap .chunked first later short sizes with ⟨seen,part,near,settled,body⟩ | ⟨continues,_⟩
  · rw [body,settledBody]
    cases undecided : bodyOf .chunked seen with
    | none =>
      have large := not_continues cap _ seen settled undecided
      rw [bodyOf_part (whole ▸ fits) seen part near (ends_longer seen part large)] at undecided
      exact absurd undecided decided
    | some result =>
      obtain ⟨stop',out',ends'⟩ := ends_part (whole ▸ fits) seen part near
      rw [bodyOf_part (whole ▸ fits) seen part near ends'] at undecided
      have settled' : stop' ≠ .unfinished := fun unfinished => by
        rw [unfinished] at undecided
        cases undecided
      obtain ⟨rfl,rfl⟩ := ends_of_parts ends' settled' (whole ▸ part) ends finished (List.take_prefix _ _)
      exact undecided.symm
  · have within := continues.2
    have all : behind.take (cap + 1) = behind := List.take_of_length_le (by rw [whole]; omega)
    rw [all] at ends
    have undecided := continues.1
    rw [bodyOf_part (whole ▸ fits) _ (List.prefix_refl _) (Nat.le_add_right_of_le within) (whole ▸ ends)] at undecided
    exact absurd undecided decided

end

theorem framing_set_truncated (headers : HttpHeaders) (value : Bytes) :
    framing (headers.set truncatedFlag value) = framing headers := by
  rw [framing,framing,HttpHeaders.getOr,HttpHeaders.getOr,HttpHeaders.get_set_other _ _ _ _ (by decide),
    HttpHeaders.get_set_other _ _ _ _ (by decide)]

/-- The response with a body, as it is shown. -/
def finishShown (response : HttpResponse) (body : Body) : Option HttpResponse := (finish response body).map shown

theorem finishShown_fine (response result : HttpResponse) (body : Body) (behind : Bytes)
    (fine : BodyFine cap response.headers behind body) (finished : finishShown response body = some result)
    (good : result.transportError = false) : result.body.length ≤ cap ∧
      (framing result.headers = .chunked → ChunkData behind result.body) := by
  cases body with
  | complete body =>
    obtain rfl := Option.some.inj finished
    exact fine
  | truncated body =>
    obtain rfl := Option.some.inj finished
    refine ⟨fine.1,fun chunked => fine.2 ?_⟩
    exact (framing_set_truncated response.headers _).symm.trans chunked
  | failed message =>
    obtain rfl := Option.some.inj finished
    cases good
  | hangs => cases finished

/-- Chunks that end beyond the cap: some runs end the body and some cut it off, with the same to
show for it. -/
theorem readBody_chunked_late (response : HttpResponse) {behind first : Bytes} {later : List Bytes}
    (short : first.length ≤ readChunk) (sizes : ∀ piece ∈ later, piece.length ≤ readChunk)
    (whole : behind = first ++ later.flatten) (fits : NoWrap (behind.take (cap + readChunk)))
    (terminated : Terminated (behind.take (cap + readChunk)) (behind.take cap))
    (flagged : response.headers.set truncatedFlag (ascii "true") = response.headers) :
    finishShown response (readBody cap .chunked none later first) =
      finishShown response (.complete (behind.take cap)) := by
  subst whole
  rcases readBody_outcome cap .chunked first later short sizes with ⟨seen,part,near,settled,body⟩ | ⟨continues,_⟩
  · obtain ⟨stop,out,ends⟩ := ends_part fits seen part near
    have decided := bodyOf_part fits seen part near ends
    cases undecided : stoppedBody out stop with
    | none =>
      rw [body,(settledBody_undecided cap .chunked seen _ part settled (decided.trans undecided)).1]
      simp only [finishShown,finish,flagged]
    | some result =>
      have finished : stop ≠ .unfinished := fun unfinished => by
        rw [unfinished] at undecided
        cases undecided
      obtain ⟨rfl,rfl⟩ := ends_of_parts ends finished part terminated (by decide) (List.take_prefix _ _)
      rw [body,settledBody,decided]
      rfl
  · have within := continues.2
    have all : (first ++ later.flatten).take (cap + readChunk) = first ++ later.flatten :=
      List.take_of_length_le (by omega)
    rw [all] at terminated
    have decided := continues.1
    rw [bodyOf_part fits _ (List.prefix_refl _) (Nat.le_add_right_of_le within) terminated] at decided
    cases decided

/-- A chunked body that is settled within a byte more than the cap. -/
theorem settled_fine {cap : Nat} {headers : HttpHeaders} {behind out : Bytes} {stop : Stop} (settled : stop ≠ .unfinished)
    (ends : Ends (behind.take (cap + 1)) stop out) :
    ∃ body, stoppedBody out stop = some body ∧ BodyFine cap headers behind body := by
  cases stop with
  | unfinished => exact absurd rfl settled
  | malformed => exact ⟨_,rfl,trivial⟩
  | terminated =>
    have bound := terminated_length ends
    rw [List.length_take] at bound
    obtain ⟨left,chunks,_⟩ := ends
    obtain ⟨more,text⟩ := List.take_prefix (cap + 1) behind
    exact ⟨_,rfl,by omega,fun _ => text ▸ (ChunkData.of_chunks chunks).append more⟩

theorem steady_outcome (cap : Nat) (response : HttpResponse) (behind : Bytes)
    (fits : framing response.headers = .chunked → NoWrap (behind.take (cap + readChunk)))
    (steady : Steady cap response.headers behind) :
    ∃ body, BodyFine cap response.headers behind body ∧ ∀ first later, first.length ≤ readChunk →
      (∀ piece ∈ later, piece.length ≤ readChunk) → behind = first ++ later.flatten →
      finishShown response (readBody cap (framing response.headers) none later first) =
        finishShown response body := by
  have cutOff : (framing response.headers = .chunked → ChunkData behind (behind.take cap)) →
      BodyFine cap response.headers behind
        (if cap < behind.length then .truncated (behind.take cap) else .complete behind) := by
    intro data
    split
    · exact ⟨List.length_take_le _ _,data⟩
    · next short => exact ⟨by omega,by rwa [List.take_of_length_le (by omega)] at data⟩
  rw [Steady] at steady
  cases framed : framing response.headers with
  | untilClose =>
    refine ⟨_,cutOff (by rw [framed]; exact fun different => by cases different),
      fun first later short sizes whole => ?_⟩
    rw [readBody_unsettled short sizes whole _ fun _ _ _ => rfl]
  | length bytes =>
    rw [framed] at steady
    refine ⟨_,?_,fun first later short sizes whole => by rw [readBody_length short sizes whole bytes steady]⟩
    split
    · next early => exact ⟨by rw [List.length_take]; omega,by rw [framed]; exact fun different => by cases different⟩
    · exact cutOff (by rw [framed]; exact fun different => by cases different)
  | chunked =>
    rw [framed] at steady
    have fits := fits framed
    rcases steady with ⟨stop,out,settled,ends⟩ | ⟨data,late⟩
    · obtain ⟨body,decided,fine⟩ := settled_fine settled ends
      refine ⟨body,fine,fun first later short sizes whole => ?_⟩
      have same := readBody_chunked_early short sizes whole fits stop out settled ends
      rw [decided,Option.some.injEq] at same
      rw [same]
    · by_cases reached : Settled (behind.take (cap + readChunk))
      · obtain ⟨terminated,flagged⟩ := late reached
        refine ⟨.complete (behind.take cap),⟨List.length_take_le _ _,fun _ => data⟩,
          fun first later short sizes whole => ?_⟩
        exact readBody_chunked_late response short sizes whole fits terminated flagged
      · refine ⟨_,cutOff fun _ => data,fun first later short sizes whole => ?_⟩
        rw [readBody_unsettled short sizes whole _ fun seen part near => ?_]
        refine bodyOf_unsettled fits seen part near fun settled => reached (settled.mono ?_)
        exact List.prefix_take_iff.mpr ⟨part,near⟩

/-! ### Steady streams -/

/-- A response as it is shown is fine: an error, or with a short body without framing. -/
def ShownFine (cap : Nat) (stream : Bytes) (result : Option HttpResponse) : Prop :=
  ∀ response, result = some response → response.transportError = false → response.body.length ≤ cap ∧
    (framing response.headers = .chunked → ∀ head behind, cutOn headEnd stream = some (head,behind) →
      ChunkData behind response.body)

theorem independent_of_outcome (cap : Nat) (request : HttpRequest) (stream : Bytes) (result : Option HttpResponse)
    (fine : ShownFine cap stream result)
    (all : ∀ pieces, Segments readChunk stream pieces → (respond cap request pieces).map shown = result) :
    Independent cap request stream where
  same := fun pieces others one other => (all pieces one).trans (all others other).symm
  capped := fun pieces response segments responded good =>
    (fine (shown response) (by rw [← all pieces segments,responded]; rfl) good).1
  unframed := fun pieces response segments responded good =>
    (fine (shown response) (by rw [← all pieces segments,responded]; rfl) good).2

theorem respond_unreadable (cap : Nat) (request : HttpRequest) (pieces : List Bytes)
    (none : ∀ head first later, HeadArrives pieces head first later →
      ∀ statusCode statusText headers, ¬Reads head statusCode statusText headers) :
    (respond cap request pieces).map shown = some (failed (blank request) []) := by
  obtain ⟨message,failed⟩ := receive_of_none cap { received := pieces } (blank request) none
  rw [respond,failed]
  rfl

theorem respond_readable (cap : Nat) (request : HttpRequest) (pieces : List Bytes)
    (arrives : HeadArrives pieces head first later) (reads : Reads head statusCode statusText headers) :
    respond cap request pieces = if bodyless request.method statusCode
      then some (answered (blank request) statusCode statusText headers)
      else finish (answered (blank request) statusCode statusText headers)
        (readBody cap (framing headers) none later first) :=
  receive_of_head cap { received := pieces } (blank request) head first later arrives statusCode statusText headers reads

theorem independent_of_steady (cap : Nat) (request : HttpRequest) (stream : Bytes)
    (fits : StreamFits cap request stream) (steady : SteadyStream cap request stream) : Independent cap request stream := by
  by_cases timely : ∃ head behind statusCode statusText headers, cutOn headEnd stream = some (head,behind) ∧
      Reads head statusCode statusText headers ∧ head.length + 4 ≤ maxHeaderBytes + 1
  · obtain ⟨head,behind,statusCode,statusText,headers,cuts,reads,short⟩ := timely
    have arriving (pieces : List Bytes) (segments : Segments readChunk stream pieces) :=
      arrives_in_time (show cutOn headEnd pieces.flatten = _ from segments.whole ▸ cuts) short
    by_cases bare : bodyless request.method statusCode
    · refine independent_of_outcome cap request stream
        (some (shown (answered (blank request) statusCode statusText headers))) ?_ fun pieces segments => ?_
      · intro response same _
        obtain rfl := Option.some.inj same
        exact ⟨Nat.zero_le _,fun _ _ behind _ => .nil behind⟩
      · obtain ⟨_,_,arrives,_⟩ := arriving pieces segments
        rw [respond_readable cap request pieces arrives reads,if_pos bare]
        rfl
    · have body : Steady cap headers behind := by
        rcases steady head behind statusCode statusText headers cuts reads with long | ⟨_,bodyless | body⟩
        · simp only [maxHeaderBytes,readChunk] at long short
          omega
        · exact absurd bodyless bare
        · exact body
      obtain ⟨body,fine,outcome⟩ := steady_outcome cap (answered (blank request) statusCode statusText headers) behind
        (fits head behind statusCode statusText headers cuts reads short bare) body
      refine independent_of_outcome cap request stream
        (finishShown (answered (blank request) statusCode statusText headers) body) ?_ fun pieces segments => ?_
      · intro response same good
        obtain ⟨bounded,data⟩ := finishShown_fine _ response body behind fine same good
        refine ⟨bounded,fun chunked head' behind' cuts' => ?_⟩
        rw [cuts,Option.some.injEq,Prod.mk.injEq] at cuts'
        exact cuts'.2 ▸ data chunked
      · obtain ⟨first,later,arrives,whole⟩ := arriving pieces segments
        obtain ⟨_,near,sizes⟩ := arrives.short segments
        rw [respond_readable cap request pieces arrives reads,if_neg bare]
        exact outcome first later near sizes whole
  · refine independent_of_outcome cap request stream (some (failed (blank request) [])) ?_ fun pieces segments => ?_
    · intro response same good
      obtain rfl := Option.some.inj same
      cases good
    · refine respond_unreadable cap request pieces fun head first later arrives statusCode statusText headers reads => ?_
      have cuts := segments.whole ▸ arrives.whole
      have near := (arrives.short segments).1
      rcases steady head _ statusCode statusText headers cuts reads with long | ⟨short,_⟩
      · omega
      · exact timely ⟨head,_,statusCode,statusText,headers,cuts,reads,short⟩

/-! ### Runs that differ -/

theorem readsOn_singles (cap : Nat) (framing : Framing) (text : Bytes)
    (continues : ∀ early, early <+: text → early.length < text.length → Continues cap framing early) :
    ReadsOn cap framing [] (singles text) := by
  intro front back whole something
  obtain ⟨early,late,rfl,rfl,rfl⟩ := List.map_eq_append_iff.mp whole
  have positive : 0 < late.length := List.length_pos_iff.mpr fun empty => something (by rw [empty]; rfl)
  have flat := flatten_singles early
  rw [singles] at flat
  rw [flat]
  exact continues early (List.prefix_append _ _) (by rw [List.length_append]; omega)

section

variable (cap : Nat) (framing : Framing) (behind : Bytes) (long : cap < behind.length)
include long

theorem readBody_singles (undecided : ∀ seen, seen <+: behind.take (cap + 1) → bodyOf framing seen = none) :
    readBody cap framing none (singles behind) [] = .truncated (behind.take cap) := by
  have reads := readsOn_singles cap framing (behind.take (cap + 1)) fun early part shorter =>
    ⟨undecided early part,by rw [List.length_take] at shorter; omega⟩
  have split : singles behind = singles (behind.take (cap + 1)) ++ singles (behind.drop (cap + 1)) := by
    rw [← singles_append,List.take_append_drop]
  have settled : ¬Continues cap framing (behind.take (cap + 1)) := fun continues => by
    have short := continues.2
    rw [List.length_take] at short
    omega
  rw [split,readBody_reads cap framing none _ _ [] reads,List.nil_append,flatten_singles,
    readBody_settled cap framing none _ _ settled,settledBody,undecided _ (List.prefix_refl _),List.take_take,
    Nat.min_eq_left (Nat.le_succ cap)]
  rfl

theorem readBody_jump (undecided : ∀ seen, seen <+: behind.take cap → bodyOf framing seen = none) :
    readBody cap framing none (jump readChunk cap behind) [] = settledBody cap framing (behind.take (cap + readChunk)) := by
  have within (early : Bytes) (part : early <+: behind.take cap) : Continues cap framing early :=
    ⟨undecided early part,part.length_le.trans (List.length_take_le _ _)⟩
  have reads := readsOn_singles cap framing (behind.take cap) fun early part _ => within early part
  have once : ReadsOn cap framing (behind.take cap) [(behind.drop cap).take readChunk] := by
    intro front back whole something
    cases front with
    | nil => simpa using within _ (List.prefix_refl _)
    | cons piece front => exact absurd (List.append_eq_nil_iff.mp (List.cons.inj whole).2.symm).2 something
  have settled : ¬Continues cap framing (behind.take (cap + readChunk)) := fun continues => by
    have short := continues.2
    rw [List.length_take] at short
    simp only [readChunk] at short
    omega
  have reach : behind.take cap ++ (behind.drop cap).take readChunk = behind.take (cap + readChunk) :=
    List.take_add.symm
  rw [jump,if_neg (by omega),readBody_reads cap framing none _ _ [] reads,List.nil_append,flatten_singles,
    ← List.singleton_append,readBody_reads cap framing none _ _ _ once]
  simp only [List.flatten_cons,List.flatten_nil,List.append_nil,reach]
  exact readBody_settled cap framing none _ _ settled

end

theorem arrives_singles (head behind : Bytes) (pieces : List Bytes) (whole : pieces.flatten = behind)
    (cuts : cutOn headEnd (head ++ headEnd ++ behind) = some (head,behind))
    (short : head.length + 4 ≤ maxHeaderBytes + 1) :
    HeadArrives (singles (head ++ headEnd) ++ pieces) head [] pieces := by
  have split : singles (head ++ headEnd) ++ pieces = singles (head ++ [13,10,13]) ++ [10] :: pieces := by
    simp [headEnd,crlf,singles]
  have flat : (singles (head ++ [13,10,13]) ++ [10] :: pieces).flatten = head ++ headEnd ++ behind := by
    simp [headEnd,crlf,whole]
  obtain ⟨first,arrives,rest⟩ := arrives_of_reach (flat ▸ cuts) (by simp; omega) (by simp) (by simp)
  rw [whole] at rest
  obtain rfl : first = [] := by simpa using rest
  rwa [split]

section

variable {cap : Nat} {request : HttpRequest} {head behind : Bytes} {statusCode : Int} {statusText : Bytes}
  {headers : HttpHeaders} (independent : Independent cap request (head ++ headEnd ++ behind))
  (cuts : cutOn headEnd (head ++ headEnd ++ behind) = some (head,behind))
  (reads : Reads head statusCode statusText headers)
include independent cuts reads

theorem head_in_time (near : head.length + 4 ≤ maxHeaderBytes + readChunk) : head.length + 4 ≤ maxHeaderBytes + 1 := by
  by_contra late
  have positive : 0 < readChunk := by decide
  have bytewise := respond_unreadable cap request (singles (head ++ headEnd ++ behind))
    fun head' first later arrives => by
      obtain ⟨early,piece,split,fits,_,found⟩ := arrives
      have single : piece.length = 1 := by
        have member : piece ∈ singles (head ++ headEnd ++ behind) := by rw [split]; simp
        obtain ⟨_,_,rfl⟩ := List.mem_map.mp member
        rfl
      have total := congrArg List.length (cutOn_split _ _ _ _ found)
      have whole := cutOn_append_left _ _ _ _ later.flatten found
      have text : early.flatten ++ piece ++ later.flatten = head ++ headEnd ++ behind := by
        rw [← flatten_singles (head ++ headEnd ++ behind),split]
        simp
      rw [text,cuts,Option.some.injEq,Prod.mk.injEq] at whole
      obtain ⟨rfl,_⟩ := whole
      simp only [List.length_append,headEnd_length] at total
      omega
  have size : (head ++ headEnd ++ behind).length = head.length + 4 + behind.length := by
    simp only [List.length_append,headEnd_length]
  have front : ((head ++ headEnd ++ behind).take maxHeaderBytes).length = maxHeaderBytes := by
    rw [List.length_take]
    omega
  have segments := segments_jump readChunk maxHeaderBytes positive (head ++ headEnd ++ behind)
  rw [jump,if_neg (by omega)] at segments
  obtain ⟨first,arrives,_⟩ := arrives_of_reach (segments.whole.symm ▸ cuts) (by rw [flatten_singles,front])
    (by rw [flatten_singles,front]; omega)
    (by rw [flatten_singles,List.length_append,front,List.length_take,List.length_drop]; omega)
  have same := independent.same _ _ (segments_singles readChunk positive _) segments
  rw [bytewise,respond_readable cap request _ arrives reads] at same
  split at same
  · cases congrArg HttpResponse.transportError (Option.some.inj same)
  · generalize outcome : readBody cap (framing headers) none _ first = body at same
    cases body with
    | complete => cases congrArg HttpResponse.transportError (Option.some.inj same)
    | truncated => cases congrArg HttpResponse.transportError (Option.some.inj same)
    | hangs => cases same
    | failed message =>
      obtain rfl : ({} : HttpHeaders) = headers := congrArg HttpResponse.headers (Option.some.inj same)
      have close : framing {} = .untilClose := by decide
      obtain ⟨_,shortFirst,sizes⟩ := arrives.short segments
      rw [close,readBody_unsettled shortFirst sizes rfl _ fun _ _ _ => rfl] at outcome
      split at outcome <;> cases outcome

variable (cap) in
omit independent in
/-- The run in which a piece as long as possible follows the first bytes of the body. -/
theorem respond_jump (count : Nat) (short : head.length + 4 ≤ maxHeaderBytes + 1)
    (bodied : ¬bodyless request.method statusCode) :
    ∃ pieces, Segments readChunk (head ++ headEnd ++ behind) pieces ∧ respond cap request pieces =
      finish (answered (blank request) statusCode statusText headers)
        (readBody cap (framing headers) none (jump readChunk count behind) []) := by
  have positive : 0 < readChunk := by decide
  have body := segments_jump readChunk count positive behind
  refine ⟨singles (head ++ headEnd) ++ jump readChunk count behind,
    (segments_singles readChunk positive _).append body,?_⟩
  rw [respond_readable cap request _ (arrives_singles head behind _ body.whole cuts short) reads,if_neg bodied]

/-- A body of known length is never cut off, or always. -/
theorem steady_length (bytes : Nat) (framed : framing headers = .length bytes)
    (short : head.length + 4 ≤ maxHeaderBytes + 1) (bodied : ¬bodyless request.method statusCode) :
    bytes ≤ cap ∨ cap + readChunk < bytes ∨ behind.length < bytes := by
  by_contra unsteady
  simp only [not_or,not_le,not_lt] at unsteady
  obtain ⟨beyond,near,enough⟩ := unsteady
  obtain ⟨pieces,segments,responded⟩ := respond_jump cap cuts reads cap short bodied
  have undecided (seen : Bytes) (part : seen <+: behind.take cap) : bodyOf (.length bytes) seen = none := by
    have inside := part.length_le.trans (List.length_take_le _ _)
    exact (bodyOf_length_none bytes seen).mpr (by omega)
  have reach : bytes ≤ (behind.take (cap + readChunk)).length := by
    rw [List.length_take]
    omega
  rw [framed,readBody_jump cap _ behind (by omega) undecided,settledBody,bodyOf,if_pos reach] at responded
  have capped := independent.capped pieces _ segments responded rfl
  simp only [List.length_take] at capped
  omega

/-- Chunks that end only behind the cap: what is cut off at it is all of their data. -/
theorem steady_late (framed : framing headers = .chunked) (long : cap < behind.length)
    (fits : NoWrap (behind.take (cap + readChunk)))
    (unsettled : ∀ seen, seen <+: behind.take (cap + 1) → bodyOf .chunked seen = none)
    (short : head.length + 4 ≤ maxHeaderBytes + 1) (bodied : ¬bodyless request.method statusCode) :
    ChunkData behind (behind.take cap) ∧
      (Settled (behind.take (cap + readChunk)) → Terminated (behind.take (cap + readChunk)) (behind.take cap) ∧
        headers.set truncatedFlag (ascii "true") = headers) := by
  obtain ⟨pieces,segments,responded⟩ := respond_jump cap cuts reads behind.length short bodied
  have chunked := (framing_set_truncated headers (ascii "true")).trans framed
  rw [jump,if_pos (le_refl _),List.append_nil,List.take_length,framed,
    readBody_singles cap _ behind long unsettled] at responded
  refine ⟨independent.unframed pieces _ segments responded rfl chunked head behind cuts,fun late => ?_⟩
  obtain ⟨stop,out,settled,ends⟩ := late
  obtain ⟨others,segments',responded'⟩ := respond_jump cap cuts reads cap short bodied
  rw [framed,readBody_jump cap _ behind long fun seen part => unsettled seen (part.trans ?_),settledBody,
    bodyOf_part fits _ (List.take_prefix _ _) (List.length_take_le _ _) ends] at responded'
  · have same := independent.same pieces others segments segments'
    rw [responded,responded'] at same
    cases stop with
    | unfinished => exact absurd rfl settled
    | malformed => cases congrArg HttpResponse.transportError (Option.some.inj same)
    | terminated =>
      obtain rfl : behind.take cap = out := congrArg HttpResponse.body (Option.some.inj same)
      exact ⟨ends,congrArg HttpResponse.headers (Option.some.inj same)⟩
  · exact List.take_prefix_take_left (Nat.le_succ cap)

theorem steady_of_independent (short : head.length + 4 ≤ maxHeaderBytes + 1)
    (bodied : ¬bodyless request.method statusCode)
    (fits : framing headers = .chunked → NoWrap (behind.take (cap + readChunk))) : Steady cap headers behind := by
  rw [Steady]
  cases framed : framing headers with
  | untilClose => trivial
  | length bytes => exact steady_length independent cuts reads bytes framed short bodied
  | chunked =>
    by_cases early : Settled (behind.take (cap + 1))
    · exact .inl early
    have fits := fits framed
    have piece : 1 ≤ readChunk := by decide
    have unsettled (seen : Bytes) (part : seen <+: behind.take (cap + 1)) : bodyOf .chunked seen = none := by
      obtain ⟨inside,near⟩ := List.prefix_take_iff.mp part
      exact bodyOf_unsettled fits seen inside (by omega) fun settled => early (settled.mono part)
    refine .inr ?_
    by_cases long : cap < behind.length
    · exact steady_late independent cuts reads framed long fits unsettled short bodied
    · obtain ⟨pieces,segments,responded⟩ := respond_jump cap cuts reads behind.length short bodied
      rw [jump,if_pos (le_refl _),List.append_nil,List.take_length,framed] at responded
      have all : behind.take (cap + 1) = behind := List.take_of_length_le (by omega)
      rw [all] at unsettled early
      have uncut := readBody_open cap .chunked (singles behind) [] (by simpa using not_lt.mp long)
        (by simpa using unsettled)
      rw [uncut,List.nil_append,flatten_singles] at responded
      have data := independent.unframed pieces _ segments responded rfl framed head behind cuts
      have reach : behind.take (cap + readChunk) = behind := List.take_of_length_le (by omega)
      rw [List.take_of_length_le (not_lt.mp long),reach]
      exact ⟨data,fun late => absurd late early⟩

end

/-- Where no number wraps, a response is independent of the pieces exactly for steady streams. -/
theorem independent_iff_steady (cap : Nat) (request : HttpRequest) (stream : Bytes)
    (fits : StreamFits cap request stream) : Independent cap request stream ↔ SteadyStream cap request stream := by
  refine ⟨fun independent head behind statusCode statusText headers cuts reads => ?_,
    independent_of_steady cap request stream fits⟩
  have bounded := fits head behind statusCode statusText headers cuts reads
  obtain rfl := cutOn_split _ _ _ _ cuts
  by_cases near : head.length + 4 ≤ maxHeaderBytes + readChunk
  · have short := head_in_time independent cuts reads near
    by_cases bare : bodyless request.method statusCode
    · exact .inr ⟨short,.inl bare⟩
    · exact .inr ⟨short,.inr (steady_of_independent independent cuts reads short bare (bounded short bare))⟩
  · exact .inl (by omega)

/-- Headers that are short, and a body that fits the cap. -/
def smallAnswer : Bytes := ascii "HTTP/1.1 200 OK\r\nContent-Length: 5\r\n\r\nhello"

theorem independent_smallAnswer : Independent 1024 {} smallAnswer := by
  have cuts : cutOn headEnd smallAnswer = some (ascii "HTTP/1.1 200 OK\r\nContent-Length: 5",ascii "hello") := by
    decide
  have parts : splitLines (ascii "HTTP/1.1 200 OK\r\nContent-Length: 5") =
      [ascii "HTTP/1.1 200 OK",ascii "Content-Length: 5"] := by decide
  have five : framing (parseHeaderLines [ascii "Content-Length: 5"]) = .length 5 := by decide
  refine (independent_iff_steady 1024 {} smallAnswer ?_).mpr ?_
  · intro head behind statusCode statusText headers found reads _ _ chunked
    rw [cuts,Option.some.injEq,Prod.mk.injEq] at found
    obtain ⟨rfl,rfl⟩ := found
    obtain ⟨statusLine,lines,split,_,rfl⟩ := reads
    obtain ⟨rfl,rfl⟩ := List.cons.inj (split.symm.trans parts)
    rw [five] at chunked
    cases chunked
  · intro head behind statusCode statusText headers found reads
    rw [cuts,Option.some.injEq,Prod.mk.injEq] at found
    obtain ⟨rfl,rfl⟩ := found
    obtain ⟨statusLine,lines,split,_,rfl⟩ := reads
    obtain ⟨rfl,rfl⟩ := List.cons.inj (split.symm.trans parts)
    refine .inr ⟨by decide,.inr ?_⟩
    rw [Steady,five]
    exact .inl (by decide)

/-- With a cap of three bytes the same answer comes back whole when it arrives at once. -/
theorem small_cap_exceeded : ¬Independent 3 {} smallAnswer := by
  intro independent
  have one : Segments readChunk smallAnswer [smallAnswer] := ⟨by simp,by decide⟩
  obtain ⟨response,responded⟩ := Option.isSome_iff_exists.mp
    (show (respond 3 {} [smallAnswer]).isSome by decide +kernel)
  have shape : (respond 3 {} [smallAnswer]).map (fun response => (response.transportError,response.body)) =
      some (false,ascii "hello") := by decide +kernel
  rw [responded,Option.map_some,Option.some.injEq,Prod.mk.injEq] at shape
  have capped := independent.capped _ response one responded shape.1
  rw [shape.2] at capped
  exact absurd capped (by decide)

end TestForge.HttpClient
