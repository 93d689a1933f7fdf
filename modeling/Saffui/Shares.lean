import Saffui.Foundation.Counts
import Saffui.Ids

/-!
# Fair shares of what every tenant uses

Source: `saffui-core/src/authz/shares.rs` and `saffui-core/src/login/fairness.rs`.
A node answers a few questions at once and a tenant a part of them; a realm, and
a network, hold a part of the hashers. A share is taken and given back under one
lock, so that any order of takes and drops is a run of a pool.
-/

namespace Saffui.Shares

open Foundation

/-- `u32::try_from` of a `usize`, or the largest. -/
def toU32 (number : Nat) : UInt32 := UInt32.ofNat (min number (2 ^ 32 - 1))

/-- One part of a number, and one at least. -/
def part (number divisor : Nat) : UInt32 := max (toU32 (number / divisor)) 1

structure DecisionShares where
  perNode : UInt32
  perTenant : UInt32

/-- One question a tenant may have answered. -/
structure DecisionShare where
  tenant : Uuid
  deriving DecidableEq

namespace DecisionShares

/-- The shares of a node whose pool holds `connections`. -/
def forPool (connections : Nat) : DecisionShares :=
  let perNode := part connections 4
  { perNode, perTenant := max (perNode / 2) 1 }

structure Held where
  node : UInt32
  tenants : Counts Uuid

def Held.default : Held := { node := 0, tenants := fun _ => none }

/-- A question for `tenant`, or none when the node or the tenant holds its whole
share already. -/
def take (shares : DecisionShares) (held : Held) (tenant : Uuid) : Option (Held × DecisionShare) :=
  if shares.perNode ≤ held.node ∨ shares.perTenant ≤ held.tenants.held tenant then none
  else some ({ node := held.node + 1, tenants := held.tenants.countOne tenant }, { tenant })

end DecisionShares

def DecisionShare.drop (held : DecisionShares.Held) (share : DecisionShare) :
    DecisionShares.Held :=
  { node := saturatingSub held.node 1, tenants := held.tenants.giveBack share.tenant }

structure HashingShares where
  perRealm : UInt32
  perNetwork : UInt32

/-- One hash a realm, and the network of its caller, may run. -/
structure HashingShare where
  realm : Uuid
  network : Option String
  deriving DecidableEq

namespace HashingShares

/-- The shares of so many workers. -/
def new (hashers : Nat) : HashingShares :=
  { perRealm := part hashers 2, perNetwork := part hashers 4 }

structure Held where
  realms : Counts Uuid
  networks : Counts String

def Held.default : Held := { realms := fun _ => none, networks := fun _ => none }

def isHeldWhole (shares : HashingShares) (held : Held) (realm : Uuid) (network : Option String) :
    Bool :=
  shares.perRealm ≤ held.realms.held realm ||
    network.any fun network => shares.perNetwork ≤ held.networks.held network

def hasFreeShare (shares : HashingShares) (held : Held) (realm : Uuid)
    (network : Option String) : Bool :=
  !shares.isHeldWhole held realm network

/-- One more of a network, where there is one. -/
def countNetwork (networks : Counts String) : Option String → Counts String
  | none => networks
  | some network => networks.countOne network

/-- A share for a realm and for the network of its caller. -/
def take (shares : HashingShares) (held : Held) (asked : Uuid × Option String) :
    Option (Held × HashingShare) :=
  let (realm, network) := asked
  if shares.isHeldWhole held realm network then none
  else
    some ({ realms := held.realms.countOne realm, networks := countNetwork held.networks network },
      { realm, network })

end HashingShares

def HashingShare.drop (held : HashingShares.Held) (share : HashingShare) : HashingShares.Held :=
  let realms := held.realms.giveBack share.realm
  let networks :=
    match share.network with
    | none => held.networks
    | some network => held.networks.giveBack network
  { realms, networks }

namespace DecisionShares

/-- The questions a tenant has alive. -/
def aliveOf (alive : Multiset DecisionShare) (tenant : Uuid) : Nat :=
  alive.countP fun share => share.tenant = tenant

/-- The counts are those of the shares alive, within their bounds. -/
structure Balanced (shares : DecisionShares) (held : Held) (alive : Multiset DecisionShare) :
    Prop where
  node : held.node.toNat = Multiset.card alive
  tenants : held.tenants.Of (aliveOf alive)
  node_bound : Multiset.card alive ≤ shares.perNode.toNat
  tenant_bound : ∀ tenant, aliveOf alive tenant ≤ shares.perTenant.toNat

theorem aliveOf_cons (share : DecisionShare) (alive : Multiset DecisionShare) (tenant : Uuid) :
    aliveOf (share ::ₘ alive) tenant =
      aliveOf alive tenant + if tenant = share.tenant then 1 else 0 := by
  simp only [aliveOf, Multiset.countP_cons, eq_comm]

theorem take_eq_some {shares : DecisionShares} {held left : Held} {tenant : Uuid}
    {share : DecisionShare} (lent : shares.take held tenant = some (left, share)) :
    held.node < shares.perNode ∧ held.tenants.held tenant < shares.perTenant ∧
      share = { tenant } ∧
      left = { node := held.node + 1, tenants := held.tenants.countOne tenant } := by
  unfold take at lent
  split at lent
  · cases lent
  · next room =>
    rw [not_or, UInt32.not_le, UInt32.not_le] at room
    obtain ⟨rfl, rfl⟩ := Prod.mk.inj (Option.some.inj lent)
    exact ⟨room.1, room.2, rfl, rfl⟩

variable {shares : DecisionShares} {held left : Held} {alive : Multiset DecisionShare}
  {tenant : Uuid} {share : DecisionShare}

theorem Balanced.take (balanced : shares.Balanced held alive)
    (lent : shares.take held tenant = some (left, share)) :
    shares.Balanced left (share ::ₘ alive) := by
  obtain ⟨node_room, tenant_room, rfl, rfl⟩ := take_eq_some lent
  have added := toNat_succ_of_lt node_room
  have node_below : held.node.toNat < shares.perNode.toNat := UInt32.lt_iff_toNat_lt.mp node_room
  have tenant_below := UInt32.lt_iff_toNat_lt.mp tenant_room
  rw [balanced.tenants.number tenant] at tenant_below
  have counted := balanced.node
  constructor
  · rw [Multiset.card_cons, added, counted]
  · exact balanced.tenants.countOne tenant_room fun other => aliveOf_cons _ _ _
  · rw [Multiset.card_cons]
    omega
  · intro other
    have bound := balanced.tenant_bound other
    rw [aliveOf_cons]
    split
    · next same =>
      rw [show other = tenant from same]
      omega
    · exact bound

theorem Balanced.node_ne_zero (balanced : shares.Balanced held (share ::ₘ alive)) :
    held.node ≠ 0 := by
  intro none
  have counted := balanced.node
  rw [none, Multiset.card_cons, UInt32.toNat_zero] at counted
  omega

theorem Balanced.drop (balanced : shares.Balanced held (share ::ₘ alive)) :
    shares.Balanced (share.drop held) alive := by
  have left := toNat_saturatingSub_one balanced.node_ne_zero
  have counted := balanced.node
  have bound := balanced.node_bound
  rw [Multiset.card_cons] at counted bound
  constructor
  · rw [DecisionShare.drop, left]
    omega
  · exact balanced.tenants.giveBack fun other => aliveOf_cons _ _ _
  · omega
  · intro other
    have more := balanced.tenant_bound other
    rw [aliveOf_cons] at more
    omega

/-- The states of the shares after any order of takes and drops. -/
abbrev Reached (shares : DecisionShares) : Held → Multiset DecisionShare → Prop :=
  Pool shares.take DecisionShare.drop Held.default

theorem balanced_of_reached (reached : shares.Reached held alive) : shares.Balanced held alive := by
  refine reached.keeps ?_ (fun balanced lent => balanced.take lent) fun balanced => balanced.drop
  exact ⟨rfl, Counts.Of.nothing, Nat.zero_le _, fun _ => Nat.zero_le _⟩

/-- What is told of the shares in each state they reach. -/
structure Sound (shares : DecisionShares) (held : Held) (alive : Multiset DecisionShare) :
    Prop where
  balanced : shares.Balanced held alive
  /-- A return finds something to take from each count it takes from. -/
  returned : ∀ share ∈ alive, held.node ≠ 0 ∧
    ∃ count, held.tenants share.tenant = some count ∧ count ≠ 0
  refused : ∀ tenant, shares.take held tenant = none ↔
    shares.perNode.toNat ≤ Multiset.card alive ∨ shares.perTenant.toNat ≤ aliveOf alive tenant

theorem take_eq_none_iff : shares.take held tenant = none ↔
    shares.perNode ≤ held.node ∨ shares.perTenant ≤ held.tenants.held tenant := by
  unfold take
  split
  · next full => simp [full]
  · next room => simp [room]

theorem Balanced.sound (balanced : shares.Balanced held alive) : shares.Sound held alive := by
  refine ⟨balanced, ?_, ?_⟩
  · intro share inside
    obtain ⟨rest, rfl⟩ := Multiset.exists_cons_of_mem inside
    have positive : 0 < aliveOf (share ::ₘ rest) share.tenant := by
      rw [aliveOf_cons, if_pos rfl]
      omega
    obtain ⟨count, found, filled, -⟩ := balanced.tenants.some_of_pos positive
    exact ⟨balanced.node_ne_zero, count, found, filled⟩
  · intro tenant
    rw [take_eq_none_iff, UInt32.le_iff_toNat_le, UInt32.le_iff_toNat_le, balanced.node,
      balanced.tenants.number]

end DecisionShares

namespace HashingShares

/-- The hashes a realm has alive. -/
def aliveOfRealm (alive : Multiset HashingShare) (realm : Uuid) : Nat :=
  alive.countP fun share => share.realm = realm

/-- The hashes a network has alive. -/
def aliveOfNetwork (alive : Multiset HashingShare) (network : String) : Nat :=
  alive.countP fun share => share.network = some network

/-- The counts are those of the shares alive, within their bounds. -/
structure Balanced (shares : HashingShares) (held : Held) (alive : Multiset HashingShare) :
    Prop where
  realms : held.realms.Of (aliveOfRealm alive)
  networks : held.networks.Of (aliveOfNetwork alive)
  realm_bound : ∀ realm, aliveOfRealm alive realm ≤ shares.perRealm.toNat
  network_bound : ∀ network, aliveOfNetwork alive network ≤ shares.perNetwork.toNat

theorem aliveOfRealm_cons (share : HashingShare) (alive : Multiset HashingShare) (realm : Uuid) :
    aliveOfRealm (share ::ₘ alive) realm =
      aliveOfRealm alive realm + if realm = share.realm then 1 else 0 := by
  simp only [aliveOfRealm, Multiset.countP_cons, eq_comm]

theorem aliveOfNetwork_cons (realm : Uuid) (named : Option String) (alive : Multiset HashingShare)
    (network : String) :
    aliveOfNetwork ({ realm, network := named } ::ₘ alive) network =
      aliveOfNetwork alive network + if named = some network then 1 else 0 := by
  rw [aliveOfNetwork, Multiset.countP_cons, aliveOfNetwork]

variable {shares : HashingShares} {held left : Held} {alive : Multiset HashingShare}
  {realm : Uuid} {network : Option String} {share : HashingShare}

theorem isHeldWhole_iff : shares.isHeldWhole held realm network = true ↔
    shares.perRealm ≤ held.realms.held realm ∨
      ∃ named, network = some named ∧ shares.perNetwork ≤ held.networks.held named := by
  cases network <;> simp [isHeldWhole]

theorem take_eq_none_iff :
    shares.take held (realm, network) = none ↔ shares.isHeldWhole held realm network = true := by
  unfold take
  simp only
  split
  · next full => simp [full]
  · next room => simp [room]

/-- A share is free right now when a take would not be refused. -/
theorem hasFreeShare_iff :
    shares.hasFreeShare held realm network = true ↔ shares.take held (realm, network) ≠ none := by
  rw [Ne, take_eq_none_iff, hasFreeShare, Bool.not_eq_true', Bool.not_eq_true]

theorem take_eq_some (lent : shares.take held (realm, network) = some (left, share)) :
    held.realms.held realm < shares.perRealm ∧
      (∀ named, network = some named → held.networks.held named < shares.perNetwork) ∧
      share = { realm, network } ∧ left.realms = held.realms.countOne realm ∧
      left.networks = countNetwork held.networks network := by
  unfold take at lent
  simp only at lent
  split at lent
  · cases lent
  · next room =>
    rw [isHeldWhole_iff, not_or, UInt32.not_le] at room
    obtain ⟨rfl, rfl⟩ := Prod.mk.inj (Option.some.inj lent)
    refine ⟨room.1, ?_, rfl, rfl, rfl⟩
    intro named asked
    exact UInt32.not_le.mp fun full => room.2 ⟨named, asked, full⟩

theorem Balanced.take (balanced : shares.Balanced held alive)
    (lent : shares.take held (realm, network) = some (left, share)) :
    shares.Balanced left (share ::ₘ alive) := by
  obtain ⟨realm_room, network_room, rfl, realms, networks⟩ := take_eq_some lent
  have realm_below := UInt32.lt_iff_toNat_lt.mp realm_room
  rw [balanced.realms.number realm] at realm_below
  constructor
  · rw [realms]
    exact balanced.realms.countOne realm_room fun other => aliveOfRealm_cons _ _ _
  · rw [networks]
    cases network with
    | none =>
      have same : aliveOfNetwork ({ realm, network := none } ::ₘ alive) = aliveOfNetwork alive := by
        funext other
        rw [aliveOfNetwork_cons, if_neg nofun, Nat.add_zero]
      rw [same]
      exact balanced.networks
    | some named =>
      refine balanced.networks.countOne (network_room named rfl) fun other => ?_
      rw [aliveOfNetwork_cons]
      simp [eq_comm]
  · intro other
    have bound := balanced.realm_bound other
    rw [aliveOfRealm_cons]
    split
    · next same =>
      rw [show other = realm from same]
      omega
    · exact bound
  · intro other
    have bound := balanced.network_bound other
    rw [aliveOfNetwork_cons]
    split
    · next named =>
      have below := UInt32.lt_iff_toNat_lt.mp (network_room other named)
      rw [balanced.networks.number other] at below
      omega
    · exact bound

theorem Balanced.drop (balanced : shares.Balanced held (share ::ₘ alive)) :
    shares.Balanced (share.drop held) alive := by
  obtain ⟨realm, network⟩ := share
  constructor
  · exact balanced.realms.giveBack fun other => aliveOfRealm_cons _ _ _
  · cases network with
    | none =>
      have same : aliveOfNetwork ({ realm, network := none } ::ₘ alive) = aliveOfNetwork alive := by
        funext other
        rw [aliveOfNetwork_cons, if_neg nofun, Nat.add_zero]
      have held_same := balanced.networks
      rw [same] at held_same
      exact held_same
    | some named =>
      refine balanced.networks.giveBack fun other => ?_
      rw [aliveOfNetwork_cons]
      simp [eq_comm]
  · intro other
    have more := balanced.realm_bound other
    rw [aliveOfRealm_cons] at more
    omega
  · intro other
    have more := balanced.network_bound other
    rw [aliveOfNetwork_cons] at more
    omega

/-- The states of the shares after any order of takes and drops. -/
abbrev Reached (shares : HashingShares) : Held → Multiset HashingShare → Prop :=
  Pool shares.take HashingShare.drop Held.default

theorem balanced_of_reached (reached : shares.Reached held alive) : shares.Balanced held alive := by
  refine reached.keeps ?_ (fun balanced lent => balanced.take lent) fun balanced => balanced.drop
  exact ⟨Counts.Of.nothing, Counts.Of.nothing, fun _ => Nat.zero_le _, fun _ => Nat.zero_le _⟩

/-- What is told of the shares in each state they reach. -/
structure Sound (shares : HashingShares) (held : Held) (alive : Multiset HashingShare) : Prop where
  balanced : shares.Balanced held alive
  /-- A return finds something to take from each count it takes from. -/
  returned : ∀ share ∈ alive,
    (∃ count, held.realms share.realm = some count ∧ count ≠ 0) ∧
    ∀ named, share.network = some named →
      ∃ count, held.networks named = some count ∧ count ≠ 0
  refused : ∀ realm network, shares.take held (realm, network) = none ↔
    shares.perRealm.toNat ≤ aliveOfRealm alive realm ∨
      ∃ named, network = some named ∧ shares.perNetwork.toNat ≤ aliveOfNetwork alive named

theorem Balanced.sound (balanced : shares.Balanced held alive) : shares.Sound held alive := by
  refine ⟨balanced, ?_, ?_⟩
  · intro share inside
    constructor
    · have positive : 0 < aliveOfRealm alive share.realm :=
        Multiset.countP_pos.mpr ⟨share, inside, rfl⟩
      obtain ⟨count, found, filled, -⟩ := balanced.realms.some_of_pos positive
      exact ⟨count, found, filled⟩
    · intro named of
      have positive : 0 < aliveOfNetwork alive named :=
        Multiset.countP_pos.mpr ⟨share, inside, of⟩
      obtain ⟨count, found, filled, -⟩ := balanced.networks.some_of_pos positive
      exact ⟨count, found, filled⟩
  · intro realm network
    rw [take_eq_none_iff, isHeldWhole_iff, UInt32.le_iff_toNat_le, balanced.realms.number]
    simp only [UInt32.le_iff_toNat_le, balanced.networks.number]

end HashingShares

/-- Whatever the order of takes and drops, the counts are those of the shares
alive: none is lost, none is returned twice, and a take is refused exactly where
a bound is reached. -/
theorem shares_neither_lost_nor_doubled :
    (∀ (shares : DecisionShares) held alive, shares.Reached held alive →
      shares.Sound held alive) ∧
    ∀ (shares : HashingShares) held alive, shares.Reached held alive →
      shares.Sound held alive :=
  ⟨fun _ _ _ reached => (DecisionShares.balanced_of_reached reached).sound,
    fun _ _ _ reached => (HashingShares.balanced_of_reached reached).sound⟩

/-- The shares of a node after a tenant was answered one question, with another
still asked. -/
theorem shares_after_a_question : ∃ held, (DecisionShares.forPool 20).Sound held {⟨1⟩} :=
  have first : (DecisionShares.forPool 20).Reached _ {⟨1⟩} := .taken 1 .start rfl
  have second : (DecisionShares.forPool 20).Reached _ (⟨1⟩ ::ₘ {⟨1⟩}) := .taken 1 first rfl
  ⟨_, shares_neither_lost_nor_doubled.1 _ _ _ second.dropped⟩

end Saffui.Shares
