import GarlicRouting.Router.Inbound
import Mathlib

/-! Garlic inside garlic: the tree of cloves that a message opens into, and that a node sends each clove
of the tree its way once, in the order of the tree. -/
namespace GarlicRouting

/-- Cloves in their order, each with those of the garlic that it brings. -/
inductive Forest where
  | nil
  | cons (clove : Clove) (inside rest : Forest)

namespace Forest

/-- A clove comes before those inside it, and these before the next one. -/
def preorder : Forest → List Clove
  | nil => []
  | cons c inside rest => c :: (inside.preorder ++ rest.preorder)

/-- The cloves that are not inside another one. -/
def roots : Forest → List Clove
  | nil => []
  | cons c _ rest => c :: rest.roots

def height : Forest → Nat
  | nil => 0
  | cons _ inside rest => max (inside.height + 1) rest.height

end Forest

namespace Clove

/-- The garlic in a clove that is for here. -/
def inner? (c : Clove) : Option Bytes :=
  match c.instruction.target, c.message.payload with
  | .here, .garlic raw => some raw
  | _, _ => none

def appMessage? (c : Clove) : Option AppMessage :=
  match c.instruction.target, c.message.payload with
  | .here, .data bs => some ⟨c.message.id, bs⟩
  | _, _ => none

def localStatus? (c : Clove) : Option UInt32 :=
  match c.instruction.target, c.message.payload with
  | .here, .status id _ => some id
  | _, _ => none

def isOutward (c : Clove) : Bool := c.instruction.target ≠ .here

end Clove

/-- What a forwarder says to cloves one after the other: whether it takes each of them. -/
def Forwarder.answers {σ : Type} (forward : Forwarder σ) : σ → List Clove → List Bool × σ
  | f, [] => ([], f)
  | f, c :: cs =>
    let (result, f) := forward f c
    let (taken, f) := answers forward f cs
    (result.isOk :: taken, f)

structure Opener where
  receiver : Receiver
  readings : Nat

/-- The cloves of a garlic. One that lies too deep is not looked at, and one that cannot be read has
none. -/
def Opener.unwrap (clock : Nat → Nat) (depth : Nat) (s : Opener) (raw : Bytes) : List Clove × Opener :=
  if maxNesting ≤ depth then ([], s)
  else
    let (garlic, receiver) := s.receiver.decrypt (clock s.readings) raw
    (garlic.elim [] Garlic.cloves, ⟨receiver, s.readings + 1⟩)

/-- The cloves of a garlic at a depth, with all that can be read in them. The garlic in a clove is
unwrapped before the next clove is looked at, so what it does to the tags shows there. -/
inductive Unpacks (clock : Nat → Nat) : Nat → Opener → List Clove → Forest → Opener → Prop
  | nil {depth : Nat} {s : Opener} : Unpacks clock depth s [] .nil s
  | plain {depth : Nat} {s t : Opener} {c : Clove} {cs : List Clove} {rest : Forest}
      (leaf : c.inner? = none) (tail : Unpacks clock depth s cs rest t) :
      Unpacks clock depth s (c :: cs) (.cons c .nil rest) t
  | garlic {depth : Nat} {s t u : Opener} {c : Clove} {cs : List Clove} {raw : Bytes}
      {inside rest : Forest} (inner : c.inner? = some raw)
      (child : Unpacks clock (depth + 1) (s.unwrap clock (depth + 1) raw).2
        (s.unwrap clock (depth + 1) raw).1 inside t)
      (tail : Unpacks clock depth t cs rest u) :
      Unpacks clock depth s (c :: cs) (.cons c inside rest) u

namespace Unpacks

variable {clock : Nat → Nat} {depth : Nat} {s t : Opener} {cs : List Clove} {tree : Forest}

/-- There is one tree at most. -/
theorem unique (h : Unpacks clock depth s cs tree t) {tree' : Forest} {t' : Opener}
    (h' : Unpacks clock depth s cs tree' t') : tree' = tree ∧ t' = t := by
  induction h generalizing tree' t' with
  | nil =>
    cases h'
    exact ⟨rfl, rfl⟩
  | plain leaf tail ih =>
    cases h' with
    | plain _ tail' =>
      obtain ⟨rfl, rfl⟩ := ih tail'
      exact ⟨rfl, rfl⟩
    | garlic inner _ _ =>
      rw [leaf] at inner
      cases inner
  | garlic inner child tail ihChild ihTail =>
    cases h' with
    | plain leaf _ =>
      rw [leaf] at inner
      cases inner
    | garlic inner' child' tail' =>
      rw [inner] at inner'
      obtain rfl := Option.some.inj inner'
      obtain ⟨rfl, rfl⟩ := ihChild child'
      obtain ⟨rfl, rfl⟩ := ihTail tail'
      exact ⟨rfl, rfl⟩

theorem exists_of_child
    (child : ∀ (s : Opener) (raw : Bytes), ∃ tree t, Unpacks clock (depth + 1)
      (s.unwrap clock (depth + 1) raw).2 (s.unwrap clock (depth + 1) raw).1 tree t)
    (s : Opener) (cs : List Clove) : ∃ tree t, Unpacks clock depth s cs tree t := by
  induction cs generalizing s with
  | nil => exact ⟨.nil, s, .nil⟩
  | cons c cs ih =>
    cases inner : c.inner? with
    | none =>
      obtain ⟨rest, t, tail⟩ := ih s
      exact ⟨_, t, .plain inner tail⟩
    | some raw =>
      obtain ⟨inside, t, first⟩ := child s raw
      obtain ⟨rest, u, tail⟩ := ih t
      exact ⟨_, u, .garlic inner first tail⟩

/-- All cloves open into a tree: below the depth limit there is nothing to open, and each level above it
rests on the next. -/
theorem exists_tree (clock : Nat → Nat) (depth : Nat) (s : Opener) (cs : List Clove) :
    ∃ tree t, Unpacks clock depth s cs tree t := by
  induction levels : maxNesting - depth generalizing depth s cs with
  | zero =>
    apply exists_of_child
    intro s raw
    have deep : maxNesting ≤ depth + 1 := by omega
    rw [Opener.unwrap, if_pos deep]
    exact ⟨.nil, s, .nil⟩
  | succ levels ih =>
    apply exists_of_child
    intro s raw
    exact ih (depth + 1) _ _ (by omega)

theorem roots_eq (h : Unpacks clock depth s cs tree t) : tree.roots = cs := by
  induction h with
  | nil => rfl
  | plain _ _ ih => rw [Forest.roots, ih]
  | garlic _ _ _ _ ih => rw [Forest.roots, ih]

/-- No clove lies deeper than garlic is followed. -/
theorem height_le (h : Unpacks clock depth s cs tree t) (shallow : cs = [] ∨ depth < maxNesting) :
    tree.height ≤ maxNesting - depth := by
  induction h with
  | nil => exact Nat.zero_le _
  | plain _ _ ih =>
    have above := shallow.resolve_left (List.cons_ne_nil _ _)
    have rest := ih (.inr above)
    rw [Forest.height, Forest.height]
    omega
  | @garlic depth s _ _ _ _ raw _ _ _ _ _ ihChild ihTail =>
    have above := shallow.resolve_left (List.cons_ne_nil _ _)
    have rest := ihTail (.inr above)
    have child : (s.unwrap clock (depth + 1) raw).1 = [] ∨ depth + 1 < maxNesting := by
      by_cases deep : maxNesting ≤ depth + 1
      · left
        rw [Opener.unwrap, if_pos deep]
      · right
        omega
    have inside := ihChild child
    rw [Forest.height]
    omega

end Unpacks

namespace Intake

variable {σ : Type} {clock : Nat → Nat} {forward : Forwarder σ}

def withOpener (i : Intake σ) (s : Opener) : Intake σ :=
  { i with node := { i.node with receiver := s.receiver }, readings := s.readings }

def route (forward : Forwarder σ) (i : Intake σ) (c : Clove) : Intake σ :=
  i.dispatchClove forward (fun i _ => i) c

theorem dispatchClove_of_inner? {c : Clove} {raw : Bytes} (inner : c.inner? = some raw)
    (nested : Intake σ → Bytes → Intake σ) (i : Intake σ) :
    i.dispatchClove forward nested c = nested i raw := by
  unfold Clove.inner? at inner
  split at inner
  case h_1 target payload =>
    obtain rfl := Option.some.inj inner
    rw [dispatchClove, if_neg (not_not.mpr target), payload]
  case h_2 => cases inner

theorem dispatchClove_of_leaf {c : Clove} (leaf : c.inner? = none)
    (nested : Intake σ → Bytes → Intake σ) (i : Intake σ) :
    i.dispatchClove forward nested c = i.route forward c := by
  unfold Clove.inner? at leaf
  unfold route dispatchClove
  split_ifs with target
  · rfl
  · split
    case h_3 raw payload =>
      rw [not_not.mp target, payload] at leaf
      cases leaf
    all_goals rfl

theorem route_withOpener (i : Intake σ) (s : Opener) (c : Clove) :
    (i.withOpener s).route forward c = (i.route forward c).withOpener s := by
  unfold route dispatchClove
  split_ifs with target
  · unfold forwardClove
    cases forwards : i.node.forwards with
    | false => simp [withOpener, forwards, Node.countForward]
    | true =>
      cases taken : (forward i.forwarder c).1.isOk <;>
        simp [withOpener, forwards, taken, Node.countForward]
  · cases running : i.node.running <;> split <;>
      simp [withOpener, running, Node.queueProviderStatus, Node.deliverApp]

/-- How garlic is followed at a depth, with the levels that are left there. -/
def nested (clock : Nat → Nat) (forward : Forwarder σ) (depth : Nat) (i : Intake σ) (raw : Bytes) :
    Intake σ :=
  (dispatch clock forward (maxNesting - depth) i raw).2

theorem dispatch_withOpener (depth : Nat) (i : Intake σ) (s : Opener) (raw : Bytes) :
    let opened := s.unwrap clock depth raw
    dispatch clock forward (maxNesting - depth) (i.withOpener s) raw =
      (opened.1.length,
        opened.1.foldl (dispatchClove forward (nested clock forward (depth + 1)))
          (i.withOpener opened.2)) := by
  intro opened
  by_cases deep : maxNesting ≤ depth
  · have levels : maxNesting - depth = 0 := by omega
    have closed : opened = ([], s) := if_pos deep
    rw [levels, closed]
    rfl
  · have levels : maxNesting - depth = maxNesting - (depth + 1) + 1 := by omega
    cases read : s.receiver.decrypt (clock s.readings) raw with
    | mk garlic receiver =>
      let next : Opener := ⟨receiver, s.readings + 1⟩
      have shown : opened = (garlic.elim [] Garlic.cloves, next) := by
        show s.unwrap clock depth raw = _
        rw [Opener.unwrap, if_neg deep, read]
      have decrypted : (i.withOpener s).decrypt clock raw = (garlic, i.withOpener next) := by
        have same : (i.withOpener s).node.receiver.decrypt (clock (i.withOpener s).readings) raw =
            (garlic, receiver) := read
        rw [decrypt, same]
        rfl
      rw [levels, shown, dispatch, decrypted]
      cases garlic <;> rfl

/-- Cloves go their ways as they come in the tree, and what is decrypted on the way is all that the
receiver knows of it. -/
theorem foldl_dispatchClove {depth : Nat} {s t : Opener} {cs : List Clove} {tree : Forest}
    (h : Unpacks clock depth s cs tree t) (i : Intake σ) :
    cs.foldl (dispatchClove forward (nested clock forward (depth + 1))) (i.withOpener s) =
      (tree.preorder.foldl (route forward) i).withOpener t := by
  induction h generalizing i with
  | nil => rfl
  | plain leaf tail ih =>
    rw [List.foldl_cons, dispatchClove_of_leaf leaf, route_withOpener, ih]
    rfl
  | @garlic depth s t u c cs raw inside rest inner child tail ihChild ihTail =>
    -- All that is inside comes before the rest, and the clove around it does nothing of its own.
    have within : nested clock forward (depth + 1) (i.withOpener s) raw =
        (inside.preorder.foldl (route forward) i).withOpener t := by
      rw [nested, dispatch_withOpener]
      exact ihChild i
    have alone : i.route forward c = i := dispatchClove_of_inner? inner _ i
    rw [List.foldl_cons, dispatchClove_of_inner? inner, within, ihTail, Forest.preorder,
      List.foldl_cons, alone, List.foldl_append]

/-- What is said to cloves for others, one after the other. Without a forwarder none is taken. -/
def heard (forward : Forwarder σ) (i : Intake σ) (outward : List Clove) : List Bool × σ :=
  if i.node.forwards then forward.answers i.forwarder outward
  else (outward.map fun _ => false, i.forwarder)

theorem length_heard (i : Intake σ) (outward : List Clove) :
    (i.heard forward outward).1.length = outward.length := by
  have answers (f : σ) : (forward.answers f outward).1.length = outward.length := by
    induction outward generalizing f with
    | nil => rfl
    | cons c cs ih => exact congrArg (· + 1) (ih (forward f c).2)
  unfold heard
  split_ifs
  · exact answers i.forwarder
  · exact List.length_map _

def absorb (forward : Forwarder σ) (i : Intake σ) (cs : List Clove) : Intake σ :=
  let apps := cs.filterMap Clove.appMessage?
  let heard := i.heard forward (cs.filter Clove.isOutward)
  { i with
    node := { i.node with
      app := i.node.app ++ apps
      deliveredLocal := i.node.deliveredLocal + apps.length
      providerStatuses :=
        i.node.providerStatuses ++ if i.node.running then cs.filterMap Clove.localStatus? else []
      forwarded := i.node.forwarded + heard.1.count true
      unforwarded := i.node.unforwarded + heard.1.count false }
    forwarder := heard.2 }

theorem absorb_nil (i : Intake σ) : i.absorb forward [] = i := by
  have silent : i.heard forward [] = ([], i.forwarder) := ite_self _
  have none : (if i.node.running then ([] : List UInt32) else []) = [] := ite_self _
  simp only [absorb, List.filter_nil, List.filterMap_nil, silent, none, List.append_nil,
    List.length_nil, List.count_nil, Nat.add_zero]

theorem absorb_cons_of_here (i : Intake σ) {c : Clove} (here : c.instruction.target = .here)
    (cs : List Clove) : i.absorb forward (c :: cs) = (i.route forward c).absorb forward cs := by
  have within : c.isOutward = false := by simp [Clove.isOutward, here]
  cases payload : c.message.payload with
  | status id timestamp =>
    have step : i.route forward c = { i with node := i.node.queueProviderStatus id } := by
      simp [route, dispatchClove, here, payload]
    cases running : i.node.running <;>
      simp [absorb, heard, step, within, Clove.appMessage?, Clove.localStatus?, here, payload,
        Node.queueProviderStatus, running]
  | data bs =>
    have step : i.route forward c = { i with node := i.node.deliverApp ⟨c.message.id, bs⟩ } := by
      simp [route, dispatchClove, here, payload]
    simp [absorb, heard, step, within, Clove.appMessage?, Clove.localStatus?, here, payload,
      Node.deliverApp]
    omega
  | garlic raw | other type bs =>
    have step : i.route forward c = i := by simp [route, dispatchClove, here, payload]
    simp [absorb, step, within, Clove.appMessage?, Clove.localStatus?, here, payload]

theorem absorb_cons_of_outward (i : Intake σ) {c : Clove} (there : c.instruction.target ≠ .here)
    (cs : List Clove) : i.absorb forward (c :: cs) = (i.route forward c).absorb forward cs := by
  have outward : c.isOutward := by simp [Clove.isOutward, there]
  have step : i.route forward c = i.forwardClove forward c := by simp [route, dispatchClove, there]
  have app : c.appMessage? = none := by simp [Clove.appMessage?, there]
  have status : c.localStatus? = none := by simp [Clove.localStatus?, there]
  rw [step, forwardClove]
  cases forwards : i.node.forwards with
  | false =>
    simp [absorb, heard, forwards, outward, app, status, Node.countForward]
    omega
  | true =>
    cases taken : (forward i.forwarder c).1.isOk <;>
      simp [absorb, heard, forwards, outward, app, status, taken, Node.countForward,
        Forwarder.answers] <;> omega

theorem foldl_route (i : Intake σ) (cs : List Clove) :
    cs.foldl (route forward) i = i.absorb forward cs := by
  induction cs generalizing i with
  | nil => rw [absorb_nil, List.foldl_nil]
  | cons c cs ih =>
    rw [List.foldl_cons, ih]
    by_cases here : c.instruction.target = .here
    · rw [absorb_cons_of_here i here]
    · rw [absorb_cons_of_outward i here]

/-- A garlic that comes in loses no clove and doubles none, whatever it holds and whatever the receiver
has seen. Its cloves and those of the garlic in them make up one tree, in which each level is
unwrapped with the receiver as it was left by all that came before and nothing is unwrapped that lies
too deep. The application gets the data in the tree, the status ids are queued, and the cloves for
others are offered to the forwarder, each once and in the order of the tree; all else about the node
stays as it was. The count returned is that of the outermost cloves. -/
theorem each_clove_once (clock : Nat → Nat) (forward : Forwarder σ) (i : Intake σ) (raw : Bytes) :
    let opened := Opener.unwrap clock 0 ⟨i.node.receiver, i.readings⟩ raw
    let result := i.receiveGarlic clock forward raw
    ∃ tree s, Unpacks clock 0 opened.2 opened.1 tree s ∧
      (∀ tree' s', Unpacks clock 0 opened.2 opened.1 tree' s' → tree' = tree ∧ s' = s) ∧
      tree.roots = opened.1 ∧ tree.height ≤ maxNesting ∧
      let cloves := tree.preorder
      let apps := cloves.filterMap Clove.appMessage?
      let ids := cloves.filterMap Clove.localStatus?
      let outward := cloves.filter Clove.isOutward
      let heard :=
        if i.node.forwards then forward.answers i.forwarder outward
        else (outward.map fun _ => false, i.forwarder)
      result.1 = opened.1.length ∧
      result.2.node = { i.node with
        receiver := s.receiver
        app := i.node.app ++ apps
        deliveredLocal := i.node.deliveredLocal + apps.length
        providerStatuses := i.node.providerStatuses ++ if i.node.running then ids else []
        forwarded := i.node.forwarded + heard.1.count true
        unforwarded := i.node.unforwarded + heard.1.count false } ∧
      result.2.node.forwarded + result.2.node.unforwarded =
        i.node.forwarded + i.node.unforwarded + outward.length ∧
      result.2.forwarder = heard.2 ∧ result.2.readings = s.readings := by
  intro opened result
  obtain ⟨tree, s, h⟩ := Unpacks.exists_tree clock 0 opened.2 opened.1
  have taken : result = (opened.1.length, (i.absorb forward tree.preorder).withOpener s) := by
    rw [← foldl_route, ← foldl_dispatchClove h]
    exact dispatch_withOpener 0 i ⟨i.node.receiver, i.readings⟩ raw
  refine ⟨tree, s, h, fun _ _ => h.unique, h.roots_eq, h.height_le (.inr (by decide)), ?_⟩
  intro cloves apps ids outward heard
  have whole : heard.1.length = outward.length := i.length_heard outward
  have parts := List.count_true_add_count_false heard.1
  have total : i.node.forwarded + heard.1.count true + (i.node.unforwarded + heard.1.count false) =
      i.node.forwarded + i.node.unforwarded + outward.length := by omega
  rw [taken]
  exact ⟨rfl, rfl, total, rfl, rfl⟩

end Intake

end GarlicRouting
