import Hdb.Interconnect.ChunkSorter
import Hdb.Lib.Interleave

/-!
# What a motion node has of its senders

What a sender sent is a list of items, each with the chunks that carry it, and at the end an end of
stream. The node is described by what of this is still pending: the chunks that it has not been
given yet. The items before them have arrived, and the chunks that it keeps are the first part of
the next item.

Main result: `NodeInv.processChunks`. Whatever the senders whose chunks come next, no error is
raised and the node has what it was given.
-/

namespace Hdb.Interconnect.Motion

open PacketSend (TupleChunk)

/-! ## What is sent -/

/-- A tuple, a row that has no attributes and was sent as such, or the record types. -/
inductive Item where
  | row (row : Row)
  | emptyRow
  | typeLists (cache : RecordCache)

/-- What a sender sent: its items with their chunks, and whether its stream ended. -/
structure Stream where
  shipped : List (Item × List TupleChunk)
  ended : Bool

/-- What the receiver is to convert an item to. -/
def Item.converted (cfg : PacketConfig) (info : SerTupInfo) : Item → Converted
  | .row r => .tuple (r.tuple.received cfg info)
  | .emptyRow => .tuple (.heap (formEmptyTuple info))
  | .typeLists cache => .typeLists cache.bytes

namespace Stream

def start : Stream := ⟨[], false⟩

def items (stream : Stream) : List Item := stream.shipped.map Prod.fst

def eos (stream : Stream) : List TupleChunk := if stream.ended then [eosChunk] else []

def chunks (stream : Stream) : List TupleChunk := stream.shipped.flatMap Prod.snd ++ stream.eos

/-- One more item is sent. -/
def ship (stream : Stream) (item : Item) (chunks : List TupleChunk) : Stream :=
  { stream with shipped := stream.shipped ++ [(item, chunks)] }

end Stream

variable {ρ : Type} (cfg : PacketConfig) (R : Remapper ρ) (info : SerTupInfo)

/-- The tuples that items come to, with the record types renumbered as far as they had been sent. -/
def outcome (m : ρ) : List Item → List GenericTuple × ρ
  | [] => ([], m)
  | item :: items =>
    let arrived := (item.converted cfg info).arrive R m
    (arrived.1 ++ (outcome arrived.2 items).1, (outcome arrived.2 items).2)

variable {cfg R info} {m : ρ}

theorem outcome_append (m : ρ) (items items' : List Item) :
    outcome cfg R info m (items ++ items') =
      ((outcome cfg R info m items).1 ++
        (outcome cfg R info (outcome cfg R info m items).2 items').1,
        (outcome cfg R info (outcome cfg R info m items).2 items').2) := by
  induction items generalizing m with
  | nil => rfl
  | cons item items ih =>
    rw [List.cons_append, outcome, ih, outcome, List.append_assoc]

/-- What has come of the first items stays. -/
theorem outcome_begins (cfg : PacketConfig) (R : Remapper ρ) (info : SerTupInfo) (m : ρ)
    (items items' : List Item) :
    (outcome cfg R info m items).1 <+: (outcome cfg R info m (items ++ items')).1 := by
  rw [outcome_append]
  exact List.prefix_append _ _

/-! ## What of it has come -/

/-- The node keeps the first part of an item, if any, and then the pending chunks come. -/
structure Within (todo : List (Item × List TupleChunk)) (part pending : List TupleChunk)
    (eos : List TupleChunk) : Prop where
  chunks : part ++ pending = todo.flatMap Prod.snd ++ eos
  inside : part ≠ [] → ∃ item rest post, todo = item :: rest ∧ item.2 = part ++ post ∧ post ≠ []

variable (cfg R info m)

/-- What the node has of a sender: what has arrived, and the chunks it keeps. -/
structure Progress (stream : Stream) (pending : List TupleChunk) (arrived : List GenericTuple)
    (entry : ChunkSorterEntry) (remapper : ρ) : Prop where
  reads : ∀ p ∈ stream.shipped, Reads cfg info p.2 (p.1.converted cfg info)
  split : ∃ done todo part, stream.shipped = done ++ todo ∧
    outcome cfg R info m (done.map Prod.fst) = (arrived, remapper) ∧
    entry.chunkList = part.map TupleChunk.bytes ∧
    if entry.endOfStream then stream.ended = true ∧ todo = [] ∧ part = [] ∧ pending = []
    else Within todo part pending stream.eos

variable {cfg R info m} {stream : Stream} {pending : List TupleChunk} {arrived : List GenericTuple}
  {entry : ChunkSorterEntry} {remapper : ρ}

theorem progress_start (cfg : PacketConfig) (R : Remapper ρ) (info : SerTupInfo) (m : ρ) :
    Progress cfg R info m .start [] [] freshEntry m where
  reads _ hp := absurd hp List.not_mem_nil
  split := ⟨[], [], [], rfl, rfl, rfl, rfl, fun h => absurd rfl h⟩

/-- What has arrived is the beginning of what the items come to. -/
theorem Progress.arrived_begins (h : Progress cfg R info m stream pending arrived entry remapper) :
    arrived <+: (outcome cfg R info m stream.items).1 := by
  obtain ⟨done, todo, part, hshipped, houtcome, -, -⟩ := h.split
  have hbegins := outcome_begins cfg R info m (done.map Prod.fst) (todo.map Prod.fst)
  rw [houtcome, ← List.map_append, ← hshipped] at hbegins
  exact hbegins

/-- At the end of its stream everything of a sender has arrived. -/
theorem Progress.all (h : Progress cfg R info m stream pending arrived entry remapper)
    (heos : entry.endOfStream = true) :
    stream.ended = true ∧ arrived = (outcome cfg R info m stream.items).1 := by
  obtain ⟨done, todo, part, hshipped, houtcome, -, hend⟩ := h.split
  rw [if_pos heos] at hend
  obtain ⟨hended, rfl, -, -⟩ := hend
  rw [Stream.items, hshipped, List.append_nil, houtcome]
  exact ⟨hended, rfl⟩

/-- Nothing is pending of a stream that was not begun. -/
theorem Progress.pending_start (h : Progress cfg R info m .start pending arrived entry remapper) :
    pending = [] := by
  obtain ⟨done, todo, part, hshipped, -, -, hend⟩ := h.split
  obtain ⟨-, rfl⟩ := List.append_eq_nil_iff.mp hshipped.symm
  split_ifs at hend
  · exact hend.2.2.2
  · exact (List.append_eq_nil_iff.mp hend.chunks).2

/-- A stream that has ended, and of which nothing is pending, has come to its end. -/
theorem Progress.at_end (h : Progress cfg R info m stream [] arrived entry remapper)
    (hended : stream.ended = true) : entry.endOfStream = true := by
  obtain ⟨done, todo, part, hshipped, -, -, hend⟩ := h.split
  by_contra hflag
  rw [if_neg hflag] at hend
  have heos : stream.eos = [eosChunk] := by rw [Stream.eos, if_pos hended]
  have hlength := congrArg List.length hend.chunks
  rw [heos, List.append_nil, List.length_append, List.length_singleton] at hlength
  by_cases hpart : part = []
  · rw [hpart, List.length_nil] at hlength
    omega
  · obtain ⟨item, rest, post, rfl, hitem, -⟩ := hend.inside hpart
    rw [List.flatMap_cons, hitem, List.length_append, List.length_append] at hlength
    omega

/-- More is sent. -/
theorem Progress.ship (h : Progress cfg R info m stream pending arrived entry remapper)
    (hopen : stream.ended = false) {item : Item} {chunks : List TupleChunk}
    (hreads : Reads cfg info chunks (item.converted cfg info)) :
    Progress cfg R info m (stream.ship item chunks) (pending ++ chunks) arrived entry remapper where
  reads p hp := by
    obtain hp | hp := List.mem_append.mp hp
    · exact h.reads p hp
    · rw [List.mem_singleton.mp hp]
      exact hreads
  split := by
    obtain ⟨done, todo, part, hshipped, houtcome, hkept, hend⟩ := h.split
    have heos : stream.eos = [] := by rw [Stream.eos, hopen]; rfl
    refine ⟨done, todo ++ [(item, chunks)], part, ?_, houtcome, hkept, ?_⟩
    · rw [Stream.ship, hshipped, List.append_assoc]
    · cases hflag : entry.endOfStream with
      | true =>
        rw [if_pos hflag, hopen] at hend
        cases hend.1
      | false =>
        rw [hflag, if_neg Bool.false_ne_true, heos] at hend
        rw [if_neg Bool.false_ne_true]
        refine ⟨?_, fun hpart => ?_⟩
        · have hchunks := hend.chunks
          rw [List.append_nil] at hchunks
          have hnone : (stream.ship item chunks).eos = [] := heos
          rw [hnone, ← List.append_assoc, hchunks]
          simp
        · obtain ⟨next, rest, post, rfl, hnext, hpost⟩ := hend.inside hpart
          exact ⟨next, rest ++ [(item, chunks)], post, rfl, hnext, hpost⟩

/-- The stream ends. -/
theorem Progress.finish (h : Progress cfg R info m stream pending arrived entry remapper)
    (hopen : stream.ended = false) :
    Progress cfg R info m { stream with ended := true } (pending ++ [eosChunk]) arrived entry
      remapper where
  reads := h.reads
  split := by
    obtain ⟨done, todo, part, hshipped, houtcome, hkept, hend⟩ := h.split
    refine ⟨done, todo, part, hshipped, houtcome, hkept, ?_⟩
    cases hflag : entry.endOfStream with
    | true =>
      rw [if_pos hflag, hopen] at hend
      cases hend.1
    | false =>
      rw [hflag, if_neg Bool.false_ne_true] at hend
      rw [if_neg Bool.false_ne_true]
      refine ⟨?_, hend.inside⟩
      have heos : stream.eos = [] := by rw [Stream.eos, hopen]; rfl
      have hchunks := hend.chunks
      rw [heos, List.append_nil] at hchunks
      rw [← List.append_assoc, hchunks]
      rfl

/-! ## The next chunk -/

variable {node : MotionNodeEntry ρ} {srcRoute : ℕ}

/-- **The next chunk of a sender**: no error is raised, and the node has it. -/
theorem Progress.next {c : TupleChunk} (hinfo : node.serTupInfo = info)
    (h : Progress cfg R info m stream (c :: pending) arrived (node.entry srcRoute)
      (node.remapper srcRoute)) :
    ∃ chunkList now remapper ended,
      addChunkToSorter cfg R node c.bytes srcRoute =
        .ok (node.after srcRoute chunkList now remapper ended) ∧
      (ended = true → (node.entry srcRoute).endOfStream = false) ∧
      ∀ ready, Progress cfg R info m stream pending (arrived ++ now)
        ⟨true, chunkList, ready, (node.entry srcRoute).endOfStream || ended⟩ remapper := by
  obtain ⟨done, todo, part, hshipped, houtcome, hkept, hend⟩ := h.split
  cases hflag : (node.entry srcRoute).endOfStream with
  | true =>
    rw [if_pos hflag] at hend
    exact absurd hend.2.2.2 (List.cons_ne_nil _ _)
  | false =>
    rw [hflag, if_neg Bool.false_ne_true] at hend
    cases htodo : todo with
    | nil =>
      -- nothing is left but the end of the stream
      subst htodo
      have hpart : part = [] := by
        by_contra hpart
        obtain ⟨item, rest, post, hnil, -⟩ := hend.inside hpart
        cases hnil
      subst hpart
      have hchunks := hend.chunks
      rw [List.nil_append, List.flatMap_nil, List.nil_append, Stream.eos] at hchunks
      split_ifs at hchunks with hended
      obtain ⟨rfl, rfl⟩ := List.cons.inj hchunks
      refine ⟨[], [], node.remapper srcRoute, true, addChunkToSorter_eos hkept hflag,
        fun _ => rfl, fun ready => ⟨h.reads, done, [], [], hshipped, ?_, rfl, ?_⟩⟩
      · rw [houtcome, List.append_nil]
      · rw [Bool.or_true, if_pos rfl]
        exact ⟨hended, rfl, rfl, rfl⟩
    | cons item rest =>
      subst htodo
      have hreads := h.reads item (by rw [hshipped]; simp)
      -- the chunk is the next one of the first item that has not arrived
      obtain ⟨post, hitem⟩ : ∃ post, item.2 = part ++ c :: post := by
        obtain ⟨post, hitem, hpost⟩ : ∃ post, item.2 = part ++ post ∧ post ≠ [] := by
          by_cases hpart : part = []
          · exact ⟨item.2, by rw [hpart, List.nil_append], hreads.ne_nil⟩
          · obtain ⟨item', rest', post, hcons, hitem, hpost⟩ := hend.inside hpart
            obtain ⟨rfl, rfl⟩ := List.cons.inj hcons
            exact ⟨post, hitem, hpost⟩
        have hchunks := hend.chunks
        rw [List.flatMap_cons, hitem, List.append_assoc, List.append_assoc,
          List.append_cancel_left_eq] at hchunks
        cases post with
        | nil => exact absurd rfl hpost
        | cons c' post =>
          obtain ⟨rfl, -⟩ := List.cons.inj hchunks
          exact ⟨post, hitem⟩
      have hpending : pending = post ++ (rest.flatMap Prod.snd ++ stream.eos) := by
        have hchunks := hend.chunks
        rw [List.flatMap_cons, hitem, List.append_assoc, List.append_assoc,
          List.append_cancel_left_eq, List.cons_append] at hchunks
        exact (List.cons.inj hchunks).2
      rw [← hinfo] at hreads
      have hadd := addChunkToSorter_next R hreads hitem hkept
      cases post with
      | nil =>
        -- the item is complete
        refine ⟨_, _, _, false, hadd, fun hfalse => absurd hfalse Bool.false_ne_true, fun ready =>
          ⟨h.reads, done ++ [item], rest, [], by rw [hshipped]; simp, ?_, rfl, ?_⟩⟩
        · rw [List.map_append, outcome_append, houtcome, List.map_singleton, outcome, outcome,
            hinfo]
          simp
        · rw [Bool.or_false, if_neg Bool.false_ne_true]
          exact ⟨by rw [hpending]; rfl, fun hnil => absurd rfl hnil⟩
      | cons c' post =>
        refine ⟨_, _, _, false, hadd, fun hfalse => absurd hfalse Bool.false_ne_true, fun ready =>
          ⟨h.reads, done, item :: rest, part ++ [c], hshipped, ?_, rfl, ?_⟩⟩
        · rw [houtcome, List.append_nil]
        · rw [Bool.or_false, if_neg Bool.false_ne_true]
          refine ⟨?_, fun _ => ⟨item, rest, c' :: post, rfl, by rw [hitem]; simp,
            List.cons_ne_nil _ _⟩⟩
          rw [hpending, List.flatMap_cons, hitem]
          simp

/-! ## All senders -/

/-- What the receiver has taken from the node, tuple by tuple, and where it was told of the end. -/
structure Consumer where
  taken : List GenericTuple
  takenFrom : ℕ → List GenericTuple
  ended : Bool
  endedFrom : ℕ → Bool

namespace Consumer

def start : Consumer := ⟨[], fun _ => [], false, fun _ => false⟩

def takeFrom (consumer : Consumer) (r : ℕ) (tuple : GenericTuple) : Consumer :=
  { consumer with
    takenFrom := Function.update consumer.takenFrom r (consumer.takenFrom r ++ [tuple]) }

def takeAny (consumer : Consumer) (tuple : GenericTuple) : Consumer :=
  { consumer with taken := consumer.taken ++ [tuple] }

end Consumer

/-- The senders whose streams have ended. -/
def endsOf (node : MotionNodeEntry ρ) (senders : Finset ℕ) : Finset ℕ :=
  senders.filter fun r => (node.entry r).endOfStream = true

variable (cfg R info m)

/-- What the node has of all its senders. What has arrived of one is ready or was taken: from the
queue of the sender, or from the queue of the node in some order of the senders. -/
structure NodeInv (order : Bool) (senders : Finset ℕ) (streams : ℕ → Stream)
    (pending : ℕ → List TupleChunk) (consumer : Consumer) (node : MotionNodeEntry ρ) : Prop where
  info_eq : node.serTupInfo = info
  order_eq : node.preserveOrder = order
  arrived : ∃ arrived : ℕ → List GenericTuple,
    (∀ r, Progress cfg R info m (streams r) (pending r) (arrived r) (node.entry r)
      (node.remapper r)) ∧
    if order then
      ∀ r, arrived r = consumer.takenFrom r ++ (node.entry r).readyTuples
    else Interleaving arrived (consumer.taken ++ node.readyTuples)
  outside : ∀ r ∉ senders, streams r = .start
  numSenders : node.numSenders = senders.card
  ends : node.numStreamEndsRecvd = (endsOf node senders).card
  more : node.moreNetWork = false ↔ senders.Nonempty ∧ endsOf node senders = senders

variable {cfg R info m} {senders : Finset ℕ} {streams : ℕ → Stream} {consumer : Consumer}
  {order : Bool} {pending : ℕ → List TupleChunk}

@[simp] theorem entry_after_self (node : MotionNodeEntry ρ) (srcRoute : ℕ)
    (chunkList : List (List UInt8)) (now : List GenericTuple) (remapper : ρ) (ended : Bool) :
    (node.after srcRoute chunkList now remapper ended).entry srcRoute =
      ⟨true, chunkList,
        (node.entry srcRoute).readyTuples ++ if node.preserveOrder then now else [],
        (node.entry srcRoute).endOfStream || ended⟩ := by
  simp [MotionNodeEntry.after, MotionNodeEntry.entry]

theorem entry_after_of_ne (node : MotionNodeEntry ρ) {srcRoute r : ℕ} (hne : r ≠ srcRoute)
    (chunkList : List (List UInt8)) (now : List GenericTuple) (remapper : ρ) (ended : Bool) :
    (node.after srcRoute chunkList now remapper ended).entry r = node.entry r := by
  simp [MotionNodeEntry.after, MotionNodeEntry.entry, Function.update_of_ne hne]

/-- A sender sends more, and it is pending. -/
theorem NodeInv.update (h : NodeInv cfg R info m order senders streams pending consumer node)
    (hmem : srcRoute ∈ senders) {stream' : Stream} {pending' : List TupleChunk}
    (hnext : ∀ arrived, Progress cfg R info m (streams srcRoute) (pending srcRoute) arrived
        (node.entry srcRoute) (node.remapper srcRoute) →
      Progress cfg R info m stream' pending' arrived (node.entry srcRoute)
        (node.remapper srcRoute)) :
    NodeInv cfg R info m order senders (Function.update streams srcRoute stream')
      (Function.update pending srcRoute pending') consumer node where
  info_eq := h.info_eq
  order_eq := h.order_eq
  arrived := by
    obtain ⟨arrived, hprogress, hqueues⟩ := h.arrived
    refine ⟨arrived, fun r => ?_, hqueues⟩
    by_cases hr : r = srcRoute
    · subst hr
      rw [Function.update_self, Function.update_self]
      exact hnext _ (hprogress r)
    · rw [Function.update_of_ne hr, Function.update_of_ne hr]
      exact hprogress r
  outside r hr := by
    rw [Function.update_of_ne (ne_of_mem_of_not_mem hmem hr).symm]
    exact h.outside r hr
  numSenders := h.numSenders
  ends := h.ends
  more := h.more

/-- A tuple that is ready is taken from the queue of its sender. -/
theorem NodeInv.takeFrom (h : NodeInv cfg R info m true senders streams pending consumer node)
    {tuple : GenericTuple} {ready : List GenericTuple}
    (hready : (node.entry srcRoute).readyTuples = tuple :: ready) :
    NodeInv cfg R info m true senders streams pending (consumer.takeFrom srcRoute tuple)
      (node.setEntry srcRoute { node.entry srcRoute with readyTuples := ready }) := by
  have hself : (node.setEntry srcRoute { node.entry srcRoute with readyTuples := ready }).entry
      srcRoute = { node.entry srcRoute with readyTuples := ready } :=
    entry_setEntry_self node srcRoute (init_entry node srcRoute)
  have hflag : ∀ r, ((node.setEntry srcRoute
      { node.entry srcRoute with readyTuples := ready }).entry r).endOfStream =
        (node.entry r).endOfStream := by
    intro r
    by_cases hr : r = srcRoute
    · rw [hr, hself]
    · rw [entry_setEntry_of_ne node hr]
  have hends : endsOf (node.setEntry srcRoute { node.entry srcRoute with readyTuples := ready })
      senders = endsOf node senders :=
    Finset.filter_congr fun r _ => by rw [hflag r]
  obtain ⟨arrived, hprogress, hqueues⟩ := h.arrived
  rw [if_pos rfl] at hqueues
  refine ⟨h.info_eq, h.order_eq, ⟨arrived, fun r => ?_, ?_⟩, h.outside, h.numSenders,
    h.ends.trans (by rw [hends]), h.more.trans (by rw [hends])⟩
  · by_cases hr : r = srcRoute
    · subst hr
      rw [hself]
      exact ⟨(hprogress r).reads, (hprogress r).split⟩
    · rw [entry_setEntry_of_ne node hr]
      exact hprogress r
  · rw [if_pos rfl]
    intro r
    by_cases hr : r = srcRoute
    · subst hr
      have htaken : (consumer.takeFrom r tuple).takenFrom r = consumer.takenFrom r ++ [tuple] :=
        Function.update_self _ _ _
      rw [hself, hqueues r, hready, htaken, List.append_assoc]
      rfl
    · have htaken : (consumer.takeFrom srcRoute tuple).takenFrom r = consumer.takenFrom r :=
        Function.update_of_ne hr _ _
      rw [entry_setEntry_of_ne node hr, hqueues r, htaken]

/-- A tuple that is ready is taken from the queue of the node. -/
theorem NodeInv.takeAny (h : NodeInv cfg R info m false senders streams pending consumer node)
    {tuple : GenericTuple} {ready : List GenericTuple}
    (hready : node.readyTuples = tuple :: ready) :
    NodeInv cfg R info m false senders streams pending (consumer.takeAny tuple)
      { node with readyTuples := ready } := by
  obtain ⟨arrived, hprogress, hqueues⟩ := h.arrived
  rw [if_neg Bool.false_ne_true, hready] at hqueues
  refine ⟨h.info_eq, h.order_eq, ⟨arrived, hprogress, ?_⟩, h.outside, h.numSenders, h.ends, h.more⟩
  rw [if_neg Bool.false_ne_true, Consumer.takeAny, List.append_assoc]
  exact hqueues

/-- An end of stream that is counted is one more. -/
theorem endsOf_after (node : MotionNodeEntry ρ) (hmem : srcRoute ∈ senders)
    (chunkList : List (List UInt8)) (now : List GenericTuple) (remapper : ρ) (ended : Bool) :
    endsOf (node.after srcRoute chunkList now remapper ended) senders =
      if ended then insert srcRoute (endsOf node senders) else endsOf node senders := by
  ext r
  by_cases hr : r = srcRoute
  · subst hr
    cases ended <;> simp [endsOf, hmem]
  · cases ended <;> simp [endsOf, entry_after_of_ne node hr, hr]

/-- **The next chunk of one of the senders.** -/
theorem NodeInv.addChunk (h : NodeInv cfg R info m order senders streams pending consumer node)
    {c : TupleChunk} {rest : List TupleChunk} (hpending : pending srcRoute = c :: rest) :
    ∃ node', addChunkToSorter cfg R node c.bytes srcRoute = .ok node' ∧
      NodeInv cfg R info m order senders streams (Function.update pending srcRoute rest) consumer
        node' := by
  obtain ⟨arrived, hprogress, hqueues⟩ := h.arrived
  have hroute := hprogress srcRoute
  rw [hpending] at hroute
  obtain ⟨chunkList, now, remapper, ended, hadd, hfresh, hnext⟩ := hroute.next h.info_eq
  have hmem : srcRoute ∈ senders := by
    by_contra hout
    have hstart := hprogress srcRoute
    rw [h.outside srcRoute hout, hpending] at hstart
    exact absurd hstart.pending_start (List.cons_ne_nil _ _)
  have hends := endsOf_after node hmem chunkList now remapper ended
  have hnew : ended = true → srcRoute ∉ endsOf node senders := by
    intro hended hin
    rw [endsOf, Finset.mem_filter, hfresh hended] at hin
    exact absurd hin.2 Bool.false_ne_true
  refine ⟨_, hadd, h.info_eq, h.order_eq,
    ⟨Function.update arrived srcRoute (arrived srcRoute ++ now), ?_, ?_⟩, h.outside, h.numSenders,
    ?_, ?_⟩
  · intro r
    by_cases hr : r = srcRoute
    · subst hr
      rw [Function.update_self, Function.update_self, entry_after_self]
      have hremapper : (node.after r chunkList now remapper ended).remapper r = remapper :=
        Function.update_self _ _ _
      rw [hremapper]
      exact hnext _
    · have hremapper : (node.after srcRoute chunkList now remapper ended).remapper r =
          node.remapper r := Function.update_of_ne hr _ _
      rw [Function.update_of_ne hr, Function.update_of_ne hr, entry_after_of_ne node hr, hremapper]
      exact hprogress r
  · -- what has arrived goes to one queue
    have horder := h.order_eq
    cases order with
    | true =>
      rw [if_pos rfl] at hqueues
      rw [if_pos rfl]
      intro r
      by_cases hr : r = srcRoute
      · subst hr
        rw [Function.update_self, entry_after_self, hqueues r, horder, if_pos rfl,
          List.append_assoc]
      · rw [Function.update_of_ne hr, entry_after_of_ne node hr, hqueues r]
    | false =>
      rw [if_neg Bool.false_ne_true] at hqueues
      rw [if_neg Bool.false_ne_true]
      have hready : (node.after srcRoute chunkList now remapper ended).readyTuples =
          node.readyTuples ++ now := by
        simp [MotionNodeEntry.after, horder]
      rw [hready, ← List.append_assoc]
      exact hqueues.append srcRoute now
  · -- the ends are counted
    rw [hends]
    change node.numStreamEndsRecvd + (if ended = true then 1 else 0) = _
    cases ended with
    | false => rw [if_neg Bool.false_ne_true, if_neg Bool.false_ne_true, Nat.add_zero, h.ends]
    | true => rw [if_pos rfl, if_pos rfl, h.ends, Finset.card_insert_of_notMem (hnew rfl)]
  · -- nothing more is read when all have ended
    rw [hends]
    change (if ended = true ∧ node.numStreamEndsRecvd + 1 = node.numSenders then false
      else node.moreNetWork) = false ↔ _
    cases ended with
    | false =>
      rw [if_neg fun hfalse => Bool.false_ne_true hfalse.1, if_neg Bool.false_ne_true, h.more]
    | true =>
      have hmore : node.moreNetWork ≠ false := by
        intro hstop
        have hall := (h.more.mp hstop).2
        exact hnew rfl (by rw [hall]; exact hmem)
      have hsub : insert srcRoute (endsOf node senders) ⊆ senders :=
        Finset.insert_subset hmem (Finset.filter_subset _ _)
      have hcard : node.numStreamEndsRecvd + 1 = (insert srcRoute (endsOf node senders)).card := by
        rw [h.ends, Finset.card_insert_of_notMem (hnew rfl)]
      rw [if_pos rfl, hcard, h.numSenders]
      split_ifs with hlast
      · exact iff_of_true rfl
          ⟨⟨srcRoute, hmem⟩, Finset.eq_of_subset_of_card_le hsub (le_of_eq hlast.2.symm)⟩
      · refine iff_of_false hmore fun hall => hlast ⟨rfl, ?_⟩
        rw [hall.2]

/-- **Chunks of one of the senders**, one after the other. -/
theorem NodeInv.processChunks {chunks rest : List TupleChunk}
    (h : NodeInv cfg R info m order senders streams pending consumer node)
    (hpending : pending srcRoute = chunks ++ rest) :
    ∃ node', processChunks cfg R srcRoute node (chunks.map TupleChunk.bytes) = .ok node' ∧
      NodeInv cfg R info m order senders streams (Function.update pending srcRoute rest) consumer
        node' := by
  induction chunks generalizing node pending with
  | nil =>
    rw [List.nil_append] at hpending
    refine ⟨node, rfl, ?_⟩
    rwa [← hpending, Function.update_eq_self]
  | cons c chunks ih =>
    obtain ⟨next, hadd, hnext⟩ := h.addChunk hpending
    obtain ⟨node', hrest, hinv⟩ := ih hnext (Function.update_self _ _ _)
    have hlength : ¬ c.bytes.length < tupleChunkHeaderSize := by
      rw [PacketSend.TupleChunk.length_bytes, TupleChunk.length]
      omega
    refine ⟨node', ?_, ?_⟩
    · rw [List.map_cons, Motion.processChunks, if_neg hlength, hadd]
      exact hrest
    · rwa [Function.update_idem] at hinv

/-! ## What was taken -/

/-- What was taken of a sender is the beginning of what its items come to. -/
theorem NodeInv.takenFrom_begins
    (h : NodeInv cfg R info m true senders streams pending consumer node) (r : ℕ) :
    consumer.takenFrom r ++ (node.entry r).readyTuples <+:
      (outcome cfg R info m (streams r).items).1 := by
  obtain ⟨arrived, hprogress, hqueues⟩ := h.arrived
  rw [if_pos rfl] at hqueues
  rw [← hqueues r]
  exact (hprogress r).arrived_begins

/-- A sender whose stream has ended was taken from, or is ready, as a whole. -/
theorem NodeInv.takenFrom_eq
    (h : NodeInv cfg R info m true senders streams pending consumer node) {r : ℕ}
    (heos : (node.entry r).endOfStream = true) :
    (streams r).ended = true ∧ consumer.takenFrom r ++ (node.entry r).readyTuples =
      (outcome cfg R info m (streams r).items).1 := by
  obtain ⟨arrived, hprogress, hqueues⟩ := h.arrived
  rw [if_pos rfl] at hqueues
  rw [← hqueues r]
  exact (hprogress r).all heos

/-- What was taken is an interleaving of beginnings of what the senders' items come to. -/
theorem NodeInv.taken_interleaving
    (h : NodeInv cfg R info m false senders streams pending consumer node) :
    ∃ arrived : ℕ → List GenericTuple, Interleaving arrived consumer.taken ∧
      ∀ r, arrived r <+: (outcome cfg R info m (streams r).items).1 := by
  obtain ⟨arrived, hprogress, hqueues⟩ := h.arrived
  rw [if_neg Bool.false_ne_true] at hqueues
  obtain ⟨front, hfront, hbegins⟩ := hqueues.left
  exact ⟨front, hfront, fun r => (hbegins r).trans (hprogress r).arrived_begins⟩

/-- When nothing more is read, and nothing is ready, all of all senders was taken. -/
theorem NodeInv.taken_all
    (h : NodeInv cfg R info m false senders streams pending consumer node)
    (hmore : node.moreNetWork = false) (hready : node.readyTuples = []) :
    (∀ r ∈ senders, (streams r).ended = true) ∧
      Interleaving (fun r => (outcome cfg R info m (streams r).items).1) consumer.taken := by
  obtain ⟨arrived, hprogress, hqueues⟩ := h.arrived
  rw [if_neg Bool.false_ne_true, hready, List.append_nil] at hqueues
  have heos : ∀ r ∈ senders, (node.entry r).endOfStream = true :=
    Finset.filter_eq_self.mp (h.more.mp hmore).2
  have harrived : arrived = fun r => (outcome cfg R info m (streams r).items).1 := by
    funext r
    by_cases hr : r ∈ senders
    · exact ((hprogress r).all (heos r hr)).2
    · have hbegins := (hprogress r).arrived_begins
      have hnone : (outcome cfg R info m (streams r).items).1 = [] := by
        rw [h.outside r hr]
        rfl
      rw [hnone] at hbegins ⊢
      exact List.prefix_nil.mp hbegins
  rw [← harrived]
  exact ⟨fun r hr => ((hprogress r).all (heos r hr)).1, hqueues⟩

end Hdb.Interconnect.Motion
