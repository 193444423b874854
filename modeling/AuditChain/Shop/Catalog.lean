import AuditChain.Event
import AuditChain.Json.Value

/-!
# The shop

A small shop whose events feed the scenarios: its catalog, the people who act in it, and the
events they cause.

## Main definitions

* `Shop.Product`, `Shop.catalog` — what is sold.
* `Shop.productCreated`, `Shop.priceChanged`, `Shop.productDeleted`, `Shop.cartItemAdded` — events.
* `Shop.traffic` — a run of events with distinct keys.
-/

namespace AuditChain.Shop

/-- A product. -/
structure Product where
  /-- Its number in the catalog. -/
  id : String
  /-- Its name. -/
  name : String
  /-- The category it is listed in. -/
  category : String
  /-- Its price in cents. -/
  priceCents : UInt64
  deriving DecidableEq, Repr

/-- What the shop sells. -/
def catalog : List Product :=
  [⟨"42", "Espresso Grinder", "kitchen", 12900⟩,
    ⟨"43", "Pour-Over Kettle", "kitchen", 5400⟩,
    ⟨"51", "Trail Runner GTX", "footwear", 15500⟩,
    ⟨"60", "Merino Beanie", "apparel", 2800⟩,
    ⟨"77", "Desk Lamp", "home", 4100⟩]

/-- The first product of the catalog. -/
def grinder : Product :=
  ⟨"42", "Espresso Grinder", "kitchen", 12900⟩

/-- When the shop opened: half past nine on the second of March 2026. -/
def epoch : Timestamp :=
  ⟨⟨2026, 3, 2, by decide⟩, ⟨9 * 3600 + 30 * 60, 0, by decide⟩⟩

/-- Someone who acts in the shop. -/
structure Actor where
  /-- Their number. -/
  id : String
  /-- Their address. -/
  email : String
  deriving DecidableEq, Repr

/-- The keeper of the catalog. -/
def admin : Actor := ⟨"staff-007", "catalog.admin@shop.example"⟩

/-- A customer. -/
def shopper : Actor := ⟨"cust-1138", "jo.shopper@mail.example"⟩

/-- A product's values as they are recorded, at a price. -/
def Product.values (p : Product) (priceCents : UInt64) : String :=
  (Json.Value.record [
    ("Category", .text p.category),
    ("Name", .text p.name),
    ("PriceCents", .word priceCents)]).compact

/-- An event with the actor and the request that caused it. -/
def causedBy (actor : Actor) (correlation : String) (e : Event) : Event :=
  (e.withUser actor.id actor.email).withRequest (some correlation) (some "203.0.113.24")
    (some "shop-admin/2.4 (+https://shop.example)")

/-- An event on a product, with its values before and after. -/
def onProduct (key : String) (action : Action) (p : Product) (at_ : Timestamp)
    (old new : Option String) : Event :=
  { dedupKey := ⟨key⟩
    entityName := "Product"
    action
    entityId := p.id
    oldValues := old
    newValues := new
    occurredAt := at_ }

/-- A product is listed. -/
def productCreated (key : String) (p : Product) (at_ : Timestamp) : Event :=
  causedBy admin s!"corr-create-{p.id}"
    (onProduct key .created p at_ none (some (p.values p.priceCents)))

/-- A product gets a new price. -/
def priceChanged (key : String) (p : Product) (newPriceCents : UInt64) (at_ : Timestamp) : Event :=
  causedBy admin s!"corr-price-{p.id}"
    (onProduct key .modified p at_ (some (p.values p.priceCents)) (some (p.values newPriceCents)))

/-- A product is taken off the list. -/
def productDeleted (key : String) (p : Product) (at_ : Timestamp) : Event :=
  causedBy admin s!"corr-delete-{p.id}"
    (onProduct key .deleted p at_ (some (p.values p.priceCents)) none)

/-- A customer puts a product into a cart. -/
def cartItemAdded (key cart : String) (p : Product) (quantity : UInt32) (at_ : Timestamp) : Event :=
  let values := (Json.Value.record [
    ("ProductId", .text p.id),
    ("Quantity", .nat quantity.toNat),
    ("UnitPriceCents", .word p.priceCents)]).compact
  causedBy shopper s!"corr-cart-{cart}"
    { dedupKey := ⟨key⟩
      entityName := "CartItem"
      action := .created
      entityId := s!"{cart}/{p.id}"
      newValues := some values
      occurredAt := at_ }

/-- The event with a number in a run of traffic: in turn a cart, a price, and a new product, one
second apart. -/
def trafficEvent (stem : String) (i : Nat) : Event :=
  let p := (catalog[i % catalog.length]?).getD grinder
  let key := stem ++ "-" ++ String.ofList (Text.padded 4 i)
  let at_ := epoch.addSeconds i
  match i % 3 with
  | 0 => cartItemAdded key s!"cart-{i / 3}" p (UInt32.ofNat (1 + i % 4)) at_
  | 1 => priceChanged key p (p.priceCents + UInt64.ofNat (10 * i)) at_
  | _ => productCreated key p at_

/-- A run of events with distinct keys. -/
def traffic (stem : String) (count : Nat) : List Event :=
  (List.range count).map (trafficEvent stem)

end AuditChain.Shop
