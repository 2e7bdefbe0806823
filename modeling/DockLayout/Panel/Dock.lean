import DockLayout.Json.Basic

/-!
# Handles and docks

A handle is the only way to name a dock or a split from outside. A dock is the
content of a panel; its plugin name and data are carried along unread.
-/

set_option autoImplicit false

namespace DockLayout

structure SplitHandle where
  value : Int
deriving DecidableEq

structure DockHandle where
  value : Int
deriving DecidableEq

structure Dock (K : Type) where
  handle : DockHandle
  pluginName : Json K
  pluginData : Option (List (Json K))

end DockLayout
