import Recertia.Engine.Ready
import Recertia.Engine.Retry
import Recertia.Node.Sound

/-! Which routes the nodes name and the table accepts: in every run all but those that `join` names
at odds with the results it leaves. -/
namespace Recertia.Graph

open FileTree (Tree)

end Recertia.Graph
