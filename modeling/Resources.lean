import Resources.Runs
import Resources.SlotPool
import Resources.Scale
import Resources.Dom
import Resources.UrlEncoded
import Resources.Xml
import Resources.XmlTree
import Resources.XmlScan
import Resources.AssetLoader
import Resources.AssetLoaderInv
import Resources.AssetLoaderReport
import Resources.AssetLoaderStall
import Resources.VideoPlayer
import Resources.VideoAgreement
import Resources.VideoSeek
import Resources.VideoSlider
import Resources.Paginator
import Resources.PaginatorWindow
import Resources.PaginatorRange
import Resources.FormValidation
import Resources.FormErrors
import Resources.FormQuery
import Resources.Archive
import Resources.ArchiveRead
import Resources.ArchiveTrip
import Resources.Replace
import Resources.ArchiveWrite
import Resources.E4X
import Resources.AppData
import Resources.FormRequests
import Resources.VirtualMouse
import Resources.VirtualMouseUpdate
import Resources.VirtualMouseLog
import Resources.VirtualMouseButton
import Resources.SectionLoader
import Resources.UIObject
import Resources.FlipBook
import Resources.BulkLoader
import Resources.BulkLoaderBound
import Resources.BulkLoaderLive
import Resources.BulkLoaderCount
import Resources.BulkLoaderSettle
import Resources.BulkLoaderOrder
import Resources.BulkLoaderUrl
import Resources.ElementLoader
import Resources.SelectList
