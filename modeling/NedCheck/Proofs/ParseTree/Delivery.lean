import Mathlib.Tactic.SplitIfs
import NedCheck.Proofs.ParseTree.Copy

/-!
# Delivery of messages

Conversion hands every message about a tree to the sink, once, in the order `deliveryOrder`: by the place of its node in the walk, those about no reachable node last, and otherwise as the messages came in. That is a stable sort, while the delivery itself goes twice over the messages, first node by node and then for what is left over. Both are in order of rank and keep the messages of each rank as they came, and `eq_of_sorted` says that there is only one such list.
-/

namespace NedCheck

/-! ### Stable order -/

section Sorting

variable {α : Type} {key : α → Nat} {left right : List α}

theorem mem_iff_of_filter_eq (h : ∀ n, left.filter (key · = n) = right.filter (key · = n)) {a : α} :
    a ∈ left ↔ a ∈ right := by
  have hiff : a ∈ left.filter (key · = key a) ↔ a ∈ right.filter (key · = key a) := by rw [h]
  simpa using hiff

theorem eq_of_sorted (hleft : left.Pairwise fun a b => key a ≤ key b)
    (hright : right.Pairwise fun a b => key a ≤ key b)
    (h : ∀ n, left.filter (key · = n) = right.filter (key · = n)) : left = right := by
  induction left generalizing right with
  | nil =>
    symm
    rw [List.eq_nil_iff_forall_not_mem]
    exact fun a ha => List.not_mem_nil ((mem_iff_of_filter_eq h).2 ha)
  | cons a left ih =>
    cases right with
    | nil => exact absurd ((mem_iff_of_filter_eq h).1 List.mem_cons_self) List.not_mem_nil
    | cons b right =>
      have hmem : ∀ {c}, c ∈ a :: left ↔ c ∈ b :: right := mem_iff_of_filter_eq h
      rw [List.pairwise_cons] at hleft hright
      -- both heads have the least key, so they are the first items under it
      have hkey : key a = key b := by
        apply Nat.le_antisymm
        · rcases List.mem_cons.1 (hmem.2 List.mem_cons_self) with heq | hb
          · exact Nat.le_of_eq (congrArg key heq.symm)
          · exact hleft.1 b hb
        · rcases List.mem_cons.1 (hmem.1 List.mem_cons_self) with heq | ha
          · exact Nat.le_of_eq (congrArg key heq.symm)
          · exact hright.1 a ha
      have hhead := h (key a)
      rw [List.filter_cons_of_pos (by simp), List.filter_cons_of_pos (by simp [hkey])] at hhead
      obtain ⟨rfl, -⟩ := List.cons.inj hhead
      have htail : ∀ n, left.filter (key · = n) = right.filter (key · = n) := by
        intro n
        have hn := h n
        by_cases heq : key a = n
        · rw [List.filter_cons_of_pos (by simpa using heq), List.filter_cons_of_pos (by simpa using heq)] at hn
          exact List.tail_eq_of_cons_eq hn
        · rwa [List.filter_cons_of_neg (by simpa using heq), List.filter_cons_of_neg (by simpa using heq)] at hn
      exact congrArg _ (ih hleft.2 hright.2 htail)

theorem filter_mergeSort (key : α → Nat) (items : List α) (n : Nat) :
    (items.mergeSort fun a b => decide (key a ≤ key b)).filter (key · = n) = items.filter (key · = n) := by
  have hsorted : (items.filter (key · = n)).Pairwise fun a b => decide (key a ≤ key b) := by
    rw [List.pairwise_filter]
    apply List.pairwise_of_forall
    intro a b ha hb
    rw [of_decide_eq_true ha, of_decide_eq_true hb]
    exact decide_eq_true (Nat.le_refl n)
  have hsub : (items.filter (key · = n)).Sublist (items.mergeSort fun a b => decide (key a ≤ key b)) :=
    List.sublist_mergeSort (by simp; omega) (by simp; omega) hsorted List.filter_sublist
  have hfilter := hsub.filter (key · = n)
  simp only [List.filter_filter, Bool.and_self] at hfilter
  exact (hfilter.eq_of_length ((List.mergeSort_perm items _).filter _).length_eq.symm).symm

/-- A list in order of a key that has the items of another as they were under each key is that one sorted. -/
theorem eq_mergeSort (hsorted : left.Pairwise fun a b => key a ≤ key b)
    (h : ∀ n, left.filter (key · = n) = right.filter (key · = n)) :
    left = right.mergeSort fun a b => decide (key a ≤ key b) := by
  apply eq_of_sorted hsorted
  · have hmerge : (right.mergeSort fun a b => decide (key a ≤ key b)).Pairwise fun a b => decide (key a ≤ key b) :=
      List.pairwise_mergeSort (by simp; omega) (by simp; omega) right
    exact hmerge.imp of_decide_eq_true
  · intro n
    rw [filter_mergeSort, h]

end Sorting

namespace ParseTree

variable {tree : ParseTree}

/-! ### The order of delivery -/

/-- The place of a message among nodes that are met in the given order: that of the node it is about, or behind all of them. -/
def rankIn (ids : List Nat) (message : Message) : Nat := ids.findIdx fun id => message.context = some id

def rank (tree : ParseTree) (message : Message) : Nat := rankIn (tree.walk root) message

def deliveryOrder (tree : ParseTree) (messages : List Message) : List Message :=
  messages.mergeSort fun left right => decide (tree.rank left ≤ tree.rank right)

/-- The node whose element a message goes to: the node it is about if that is reachable, and otherwise the root. -/
def destination (tree : ParseTree) (message : Message) : Nat :=
  ((tree.walk root).find? fun id => message.context = some id).getD root

/-- The messages about each of the nodes in turn, then those about no such node. -/
def byNode (ids : List Nat) (messages : List Message) : List Message :=
  (ids.flatMap fun id => Message.concerning (some id) messages) ++
    messages.filter fun message => !ids.any fun id => message.context = some id

theorem byNode_cons {id : Nat} {rest : List Nat} (hnew : id ∉ rest) (messages : List Message) :
    byNode (id :: rest) messages =
      Message.concerning (some id) messages ++ byNode rest (messages.filter fun message => message.context ≠ some id) := by
  have hrest : (rest.flatMap fun other => Message.concerning (some other) messages) =
      rest.flatMap fun other =>
        Message.concerning (some other) (messages.filter fun message => message.context ≠ some id) := by
    apply List.flatMap_congr
    intro other hother
    unfold Message.concerning
    rw [List.filter_filter]
    apply List.filter_congr
    intro message _
    have hne : other ≠ id := fun heq => hnew (heq ▸ hother)
    by_cases hcontext : message.context = some other <;> simp [hcontext, hne]
  rw [byNode, byNode, List.flatMap_cons, hrest, List.append_assoc, List.filter_filter]
  congr 2
  apply List.filter_congr
  intro message _
  by_cases hcontext : message.context = some id <;> simp [hcontext]

theorem rankIn_cons (id : Nat) (rest : List Nat) (message : Message) :
    rankIn (id :: rest) message = if message.context = some id then 0 else rankIn rest message + 1 := by
  simp [rankIn, List.findIdx_cons, Bool.cond_decide]

theorem byNode_sorted {ids : List Nat} (hnodup : ids.Nodup) (messages : List Message) :
    ((byNode ids messages).Pairwise fun left right => rankIn ids left ≤ rankIn ids right) ∧
      ∀ n, (byNode ids messages).filter (rankIn ids · = n) = messages.filter (rankIn ids · = n) := by
  induction ids generalizing messages with
  | nil => simp [byNode, rankIn, List.pairwise_of_forall]
  | cons id rest ih =>
    obtain ⟨hnew, hnodup⟩ := List.nodup_cons.1 hnodup
    obtain ⟨hsorted, hranks⟩ := ih hnodup (messages.filter fun message => message.context ≠ some id)
    have hfirst : ∀ message ∈ Message.concerning (some id) messages, rankIn (id :: rest) message = 0 := by
      intro message hmessage
      rw [rankIn_cons, if_pos (of_decide_eq_true (List.mem_filter.1 hmessage).2)]
    have hlater : ∀ message ∈ byNode rest (messages.filter fun message => message.context ≠ some id),
        rankIn (id :: rest) message = rankIn rest message + 1 := by
      intro message hmessage
      have hmem := (mem_iff_of_filter_eq hranks).1 hmessage
      rw [rankIn_cons, if_neg (of_decide_eq_true (List.mem_filter.1 hmem).2)]
    rw [byNode_cons hnew]
    constructor
    · rw [List.pairwise_append]
      refine ⟨List.pairwise_of_forall_mem_list ?_, hsorted.imp_of_mem ?_, ?_⟩
      · intro left hleft right _
        rw [hfirst left hleft]
        exact Nat.zero_le _
      · intro left right hleft hright hle
        rw [hlater left hleft, hlater right hright]
        exact Nat.succ_le_succ hle
      · intro left hleft right _
        rw [hfirst left hleft]
        exact Nat.zero_le _
    · intro n
      rw [List.filter_append]
      cases n with
      | zero =>
        have hnone : (byNode rest (messages.filter fun message => message.context ≠ some id)).filter
            (rankIn (id :: rest) · = 0) = [] := by
          rw [List.filter_eq_nil_iff]
          intro message hmessage
          simp [hlater message hmessage]
        rw [hnone, List.append_nil, List.filter_eq_self.2 fun message hmessage => by simp [hfirst message hmessage]]
        apply List.filter_congr
        intro message _
        rw [rankIn_cons]
        split_ifs with hcontext <;> simp [hcontext]
      | succ n =>
        have hnone : (Message.concerning (some id) messages).filter (rankIn (id :: rest) · = n + 1) = [] := by
          rw [List.filter_eq_nil_iff]
          intro message hmessage
          simp [hfirst message hmessage]
        have hshift : (byNode rest (messages.filter fun message => message.context ≠ some id)).filter
            (rankIn (id :: rest) · = n + 1) =
            (byNode rest (messages.filter fun message => message.context ≠ some id)).filter (rankIn rest · = n) := by
          apply List.filter_congr
          intro message hmessage
          simp [hlater message hmessage]
        rw [hnone, List.nil_append, hshift, hranks, List.filter_filter]
        apply List.filter_congr
        intro message _
        rw [rankIn_cons]
        split_ifs with hcontext <;> simp [hcontext]

/-! ### What the sink gets -/

def diagnosticOn? (e : Element) (message : Message) : Option Diagnostic :=
  (Severity.ofCode? message.severityCode).map fun severity => {
    severity := severity
    subject := some e.subject
    line := Text.lineOfLocation message.location
    message := message.text }

/-- The diagnostic a message about the tree makes, on the element of the node it goes to. -/
def diagnostic? (tree : ParseTree) (message : Message) : Option Diagnostic :=
  diagnosticOn? (tree.copy (tree.destination message)) message

theorem deliver_append {before : List (Element × Message)} {delivered : List Diagnostic}
    (h : before.map (fun pair => diagnosticOn? pair.1 pair.2) = delivered.map some)
    (rest : List (Element × Message)) (received : Collector) :
    deliver Collector.sink (before ++ rest) received =
      deliver Collector.sink rest (received.addAll delivered) := by
  induction before generalizing delivered received with
  | nil =>
    cases delivered with
    | nil => simp [Collector.addAll]
    | cons first others => simp at h
  | cons pair before ih =>
    cases delivered with
    | nil => simp at h
    | cons first others =>
      rw [List.map_cons, List.map_cons] at h
      obtain ⟨hfirst, hothers⟩ := List.cons.inj h
      obtain ⟨severity, hseverity, rfl⟩ := Option.map_eq_some_iff.1 hfirst
      rw [List.cons_append, deliver, hseverity]
      dsimp only
      rw [ih hothers, Collector.addAll_cons]
      rfl

theorem destination_eq {id : Nat} {message : Message} (hid : id ∈ tree.walk root)
    (hcontext : message.context = some id) : tree.destination message = id := by
  unfold destination
  cases hfind : (tree.walk root).find? fun id => message.context = some id with
  | none => exact absurd hcontext (by simpa using List.find?_eq_none.1 hfind id hid)
  | some other =>
    have hother := List.find?_some hfind
    rw [hcontext, decide_eq_true_eq, Option.some.injEq] at hother
    exact hother.symm

theorem Linked.deliveryOrder_eq (h : tree.Linked) (messages : List Message) :
    tree.deliveryOrder messages = byNode (tree.walk root) messages := by
  obtain ⟨hsorted, hranks⟩ := byNode_sorted (h.walk_nodup h.grounded_root) messages
  exact (eq_mergeSort hsorted hranks).symm

/-- The two rounds of delivery together go through the messages in order, each with the element it goes to. -/
theorem Linked.addressed_eq (h : tree.Linked) (messages : List Message) :
    addressed (tree.copy root) messages =
      (tree.deliveryOrder messages).map fun message => (tree.copy (tree.destination message), message) := by
  rw [h.deliveryOrder_eq, addressed, h.descendants_copy h.grounded_root, byNode, List.map_append,
    List.flatMap_map, List.map_flatMap]
  congr 1
  · apply List.flatMap_congr
    intro id hid
    rw [id_copy]
    apply List.map_congr_left
    intro message hmessage
    rw [destination_eq hid (of_decide_eq_true (List.mem_filter.1 hmessage).2)]
  · simp only [List.any_map, Function.comp_def, id_copy]
    apply List.map_congr_left
    intro message hmessage
    have hnone : (tree.walk root).find? (fun id => message.context = some id) = none := by
      rw [List.find?_eq_none]
      simpa using (List.mem_filter.1 hmessage).2
    rw [destination, hnone, Option.getD_none]

theorem exists_map_eq_map_some {α β : Type} {f : α → Option β} {xs : List α} (h : ∀ x ∈ xs, (f x).isSome = true) :
    ∃ ys : List β, xs.map f = ys.map some := by
  induction xs with
  | nil => exact ⟨[], rfl⟩
  | cons x xs ih =>
    obtain ⟨y, hy⟩ := Option.isSome_iff_exists.1 (h x (by simp))
    obtain ⟨ys, hys⟩ := ih fun x hx => h x (by simp [hx])
    exact ⟨y :: ys, by rw [List.map_cons, List.map_cons, hy, hys]⟩

theorem Linked.exists_deliver_append (h : tree.Linked) {messages before rest : List Message}
    (horder : tree.deliveryOrder messages = before ++ rest)
    (hknown : ∀ message ∈ before, (Severity.ofCode? message.severityCode).isSome = true) (received : Collector) :
    ∃ delivered, before.map tree.diagnostic? = delivered.map some ∧
      deliver Collector.sink (addressed (tree.copy root) messages) received =
        deliver Collector.sink (rest.map fun message => (tree.copy (tree.destination message), message))
          (received.addAll delivered) := by
  have hsome : ∀ message ∈ before, (tree.diagnostic? message).isSome = true := by
    intro message hmessage
    rw [diagnostic?, diagnosticOn?, Option.isSome_map]
    exact hknown message hmessage
  obtain ⟨delivered, hdelivered⟩ := exists_map_eq_map_some hsome
  refine ⟨delivered, hdelivered, ?_⟩
  rw [h.addressed_eq, horder, List.map_append]
  apply deliver_append
  rw [List.map_map]
  exact hdelivered

/-- Conversion of a tree that was built fails on the first reachable node of unknown kind, if there is one, and then delivers nothing. Otherwise the messages are delivered in order of the nodes they are about, those about no reachable node last and on the root, none lost and none twice. If all severities are known, the sink gets one diagnostic for each and conversion gives the copy of the root; if not, the sink gets those in front of the first unknown one, which conversion fails on. -/
theorem convert_delivers (hbuilt : tree.Built) (messages : List Message) (received : Collector) :
    (∀ before bad after, tree.walk root = before ++ bad :: after →
      (∀ id ∈ before, tree.isUnknown id = false) → tree.isUnknown bad = true →
      tree.convert messages Collector.sink received = (.error (.unknownTag (tree.node bad).code), received)) ∧
    ((∀ id ∈ tree.walk root, tree.isUnknown id = false) →
      (tree.copy root).descendants = (tree.walk root).map tree.copy ∧
      (tree.deliveryOrder messages).Perm messages ∧
      ((∀ message ∈ messages, (Severity.ofCode? message.severityCode).isSome = true) →
        ∃ delivered, (tree.deliveryOrder messages).map tree.diagnostic? = delivered.map some ∧
          tree.convert messages Collector.sink received = (.ok (tree.copy root), received.addAll delivered)) ∧
      (∀ before message after, tree.deliveryOrder messages = before ++ message :: after →
        (∀ earlier ∈ before, (Severity.ofCode? earlier.severityCode).isSome = true) →
        Severity.ofCode? message.severityCode = none →
        ∃ delivered, before.map tree.diagnostic? = delivered.map some ∧
          tree.convert messages Collector.sink received =
            (.error (.unknownSeverity message.severityCode message.text), received.addAll delivered))) := by
  have h := hbuilt.linked
  have hperm : (tree.deliveryOrder messages).Perm messages := List.mergeSort_perm _ _
  refine ⟨?_, fun hknown => ⟨h.descendants_copy h.grounded_root, hperm, ?_, ?_⟩⟩
  · intro before bad after hwalk hbefore hbad
    rw [convert, toElement_eq_error hwalk hbefore hbad]
  · intro hseverities
    have hall : ∀ message ∈ tree.deliveryOrder messages, (Severity.ofCode? message.severityCode).isSome = true :=
      fun message hmessage => hseverities message (hperm.mem_iff.1 hmessage)
    obtain ⟨delivered, hdelivered, hdeliver⟩ := h.exists_deliver_append (List.append_nil _).symm hall received
    refine ⟨delivered, hdelivered, ?_⟩
    rw [convert, toElement_eq_ok hknown]
    dsimp only
    rw [hdeliver, List.map_nil, deliver]
    rfl
  · intro before message after horder hbefore hunknown
    obtain ⟨delivered, hdelivered, hdeliver⟩ := h.exists_deliver_append horder hbefore received
    refine ⟨delivered, hdelivered, ?_⟩
    rw [convert, toElement_eq_ok hknown]
    dsimp only
    rw [hdeliver, List.map_cons, deliver, hunknown]
    rfl

/-- A file with two packages, of which the first is detached. -/
def detachedPackageTree : ParseTree :=
  ((((ParseTree.new 2).appendChild 0 4).appendChild 0 4).detach? 1).getD (.new 2)

/-- The message about the detached node goes to the root, behind the one about the package that is left; the message of unknown severity ends the delivery. -/
theorem convert_delivers_detachedPackage :
    ∃ delivered,
      [⟨some 2, "", 2, "second"⟩, ⟨some 1, "", 1, "first"⟩].map detachedPackageTree.diagnostic? =
        delivered.map some ∧
      detachedPackageTree.convert
          [⟨some 1, "", 1, "first"⟩, ⟨none, "", 7, "odd"⟩, ⟨some 2, "", 2, "second"⟩] Collector.sink .empty =
        (.error (.unknownSeverity 7 "odd"), ⟨delivered⟩) := by
  have htree : (((ParseTree.new 2).appendChild 0 4).appendChild 0 4).Built :=
    .appendChild 4 (.appendChild 4 (.new 2) (by decide)) (by decide)
  have hdetach : (((ParseTree.new 2).appendChild 0 4).appendChild 0 4).detach? 1 = some detachedPackageTree := by
    decide +kernel
  have hbuilt : detachedPackageTree.Built := .detach htree hdetach
  have hknown : ∀ id ∈ detachedPackageTree.walk root, detachedPackageTree.isUnknown id = false := by
    decide +kernel
  have horder : detachedPackageTree.deliveryOrder
      [⟨some 1, "", 1, "first"⟩, ⟨none, "", 7, "odd"⟩, ⟨some 2, "", 2, "second"⟩] =
        [⟨some 2, "", 2, "second"⟩, ⟨some 1, "", 1, "first"⟩] ++ ⟨none, "", 7, "odd"⟩ :: [] := by
    rw [hbuilt.linked.deliveryOrder_eq]
    decide +kernel
  exact ((convert_delivers hbuilt _ .empty).2 hknown).2.2.2 _ _ _ horder (by decide) (by decide)

end ParseTree

end NedCheck
