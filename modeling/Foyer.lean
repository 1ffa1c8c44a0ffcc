import Foyer.Basic
import Foyer.Bytes
import Foyer.Entry
import Foyer.Region
import Foyer.Load
import Foyer.Catalog
import Foyer.Writer
import Foyer.Store
import Foyer.Interleavings
import Foyer.Recovery
import Foyer.Views
import Foyer.Reopen
import Foyer.Allocation
import Foyer.Scan
import Foyer.Reinsertion
import Foyer.StorageExt
import Foyer.Soundness
import Foyer.Reclaimer
